import Mathlib.Algebra.GroupWithZero.Nat
import Mathlib.Data.List.Dedup
import Mathlib.Data.List.Perm.Subperm
import Osl.Proofs.Isolation.Plan

/-!
# Disciplines under which cells keep apart

Nothing but the shape of a window tells how far a cell reaches, so whether a string finds room for its
second half depends on the statements before. A `Discipline` is a rule for the statements of a program.
`planned` asks for no more than is needed: a string that does not go into the cell of a string must find a
window behind its own that is nobody's. There are two simple rules that do not speak of windows: names keep
their kinds and are not deleted (`lasting`), or all values are of one kind (`uniform`); and the cells fit
into the data section. Under either of them there is always room (`Discipline.Orderly.room`): the cells
stand one right behind the other, or every cell starts a whole number of cells on.
-/

namespace Osl
set_option autoImplicit false

variable {L : Layout} {p : Plan} {name target : String} {slot : Nat} {k : Kind}

namespace Plan

/-- No name but the given one is bound without having a value. -/
def Settled (p : Plan) (name : String) : Prop :=
  ∀ other slot, p.slots.lookup other = some slot → other ∈ p.names ∨ other = name

/-- The number of bytes that the cells of all values take up. -/
def used (p : Plan) : Nat := (p.names.dedup.map fun name => (p.kindOf name).span).sum

/-- The name has a value of the kind. -/
def Keeps (p : Plan) (name : String) (k : Kind) : Prop := name ∈ p.names ∧ p.kindOf name = k

/-- The data section holds one more cell of the kind, and no other name is waiting for one. -/
def Fits (L : Layout) (p : Plan) (name : String) (k : Kind) : Prop :=
  p.Settled name ∧ p.used + k.span ≤ L.data

instance (p : Plan) (name : String) : Decidable (p.Settled name) :=
  decidable_of_iff
    (∀ b ∈ p.slots.bindings, ∀ _ ∈ p.slots.lookup b.1, b.1 ∈ p.names ∨ b.1 = name)
    (Slots.forall_lookup_iff fun other _ => other ∈ p.names ∨ other = name)

instance (p : Plan) (name : String) (k : Kind) : Decidable (p.Keeps name k) :=
  inferInstanceAs (Decidable (_ ∧ _))

instance (L : Layout) (p : Plan) (name : String) (k : Kind) : Decidable (p.Fits L name k) :=
  inferInstanceAs (Decidable (_ ∧ _))

end Plan

/-- A rule for the statements of a program. -/
inductive Discipline
  /-- Names keep their kinds and are not deleted. -/
  | lasting
  /-- All values are of one kind. -/
  | uniform (kind : Kind)
  /-- Every value goes into a cell of its kind or finds room for one. -/
  | planned

/-- What the discipline asks of the next statement. -/
def Discipline.Allows (L : Layout) (p : Plan) : Discipline → Statement → Prop
  | .lasting, .assign target e =>
    p.Keeps target (e.kind p.kindOf) ∨ target ∉ p.names ∧ p.Fits L target (e.kind p.kindOf)
  | .lasting, .delete _ => False
  | .uniform kind, .assign target e =>
    e.kind p.kindOf = kind ∧ (target ∈ p.names ∨ p.Fits L target kind)
  | .planned, .assign target e =>
    p.Keeps target (e.kind p.kindOf) ∨ ∃ slot, p.Room L target (e.kind p.kindOf) slot
  | _, _ => True

/-- Only the place of a name can have room for its value. -/
theorem Plan.exists_room_iff :
    (∃ slot ∈ p.place L target, p.Room L target k slot) ↔ ∃ slot, p.Room L target k slot :=
  ⟨fun ⟨slot, _, room⟩ => ⟨slot, room⟩, fun ⟨slot, room⟩ => ⟨slot, room.placed, room⟩⟩

instance (L : Layout) (p : Plan) (target : String) (k : Kind) :
    Decidable (∃ slot, p.Room L target k slot) := decidable_of_iff _ Plan.exists_room_iff

instance (L : Layout) (p : Plan) : (d : Discipline) → (s : Statement) → Decidable (d.Allows L p s)
  | .lasting, .assign _ _ => inferInstanceAs (Decidable (_ ∨ _ ∧ _))
  | .lasting, .delete _ => inferInstanceAs (Decidable False)
  | .uniform _, .assign _ _ => inferInstanceAs (Decidable (_ ∧ (_ ∨ _)))
  | .planned, .assign _ _ => inferInstanceAs (Decidable (_ ∨ ∃ _, _))
  | .lasting, .print _ | .lasting, .printLog | .uniform _, .delete _ | .uniform _, .print _
  | .uniform _, .printLog | .planned, .delete _ | .planned, .print _ | .planned, .printLog =>
    inferInstanceAs (Decidable True)

namespace Plan

/-- A vacant window is no other name's if all bound names have values. -/
theorem Sound.sole_of_vacant (sound : p.Sound L) (settled : p.Settled target)
    (vacant : p.window slot = .vacant) : p.Sole target slot := by
  intro other bound
  exact (settled other slot bound).resolve_left (sound.notMem_of_vacant bound vacant)

/-! ## How much is used -/

theorem used_eq (p : Plan) {kinds : String → Kind} (same : ∀ name ∈ p.names, kinds name = p.kindOf name) :
    p.used = (p.names.dedup.map fun name => (kinds name).span).sum := by
  rw [used]
  congr 1
  apply List.map_congr_left
  intro name member
  rw [same name (List.mem_dedup.1 member)]

namespace Sound

/-- Giving a name another value of the kind that it has changes no window. -/
theorem window_assign_keep (sound : p.Sound L) (member : target ∈ p.names)
    (bound : p.slots.lookup target = some slot) :
    (p.assign target slot (p.kindOf target)).window = p.window := by
  have taken := sound.kind_eq member bound
  funext w
  by_cases here : w = slot
  · rw [here, window_assign_self, taken]
  by_cases behind : p.kindOf target = .string ∧ w = slot + 16
  · obtain ⟨string, rfl⟩ := behind
    rw [string] at taken ⊢
    rw [window_assign_behind, (sound.string slot taken).2]
  · exact window_assign_of_ne here fun string same => behind ⟨string, same⟩

/-- A name that has a value already does not need more. -/
theorem used_assign_keep (sound : p.Sound L) (member : target ∈ p.names)
    (bound : p.slots.lookup target = some slot) :
    (p.assign target slot (p.kindOf target)).used = p.used := by
  have names : (p.assign target slot (p.kindOf target)).names.dedup = p.names.dedup :=
    List.dedup_cons_of_mem member
  have kinds : ∀ name ∈ p.names, (p.assign target slot (p.kindOf target)).kindOf name = p.kindOf name := by
    intro name _
    rw [kindOf, sound.window_assign_keep member bound, lookup_assign_of_eq bound, kindOf]
  rw [used, names, ← p.used_eq kinds]

/-- A name that had no value before needs a cell more. -/
theorem used_assign (sound : p.Sound L) (room : p.Room L target k slot) (new : target ∉ p.names) :
    (p.assign target slot k).used = k.span + p.used := by
  have names : (p.assign target slot k).names.dedup = target :: p.names.dedup :=
    List.dedup_cons_of_notMem new
  have kinds : ∀ name ∈ p.names, (p.assign target slot k).kindOf name = p.kindOf name := by
    intro name member
    obtain ⟨w, _, bound, -⟩ := sound.held name member
    exact room.kindOf_eq (fun same => new (same ▸ member)) bound
  rw [used, names, List.map_cons, List.sum_cons, kindOf_assign_self, ← p.used_eq kinds]

/-- A name that is bound to its place needs nothing yet. -/
theorem used_reserve (sound : p.Sound L) (placed : p.place L target = some slot) :
    (p.reserve L target).used = p.used := by
  have kinds : ∀ name ∈ p.names, (p.reserve L target).kindOf name = p.kindOf name := by
    intro name member
    rw [kindOf, sound.lookup_reserve placed member]
    rfl
  exact (p.used_eq kinds).symm

end Sound

/-! ## Cells one right behind the other -/

/-- From `w` to `v` there are cells with values, one right behind the other. -/
inductive Tiled (p : Plan) : Nat → Nat → Prop
  | nil (w : Nat) : Tiled p w w
  | cons {w v : Nat} {k : Kind} : p.window w = .taken k → Tiled p (w + k.span) v → Tiled p w v

theorem Tiled.le {w v : Nat} (h : p.Tiled w v) : w ≤ v := by
  induction h with
  | nil w => exact Nat.le_refl w
  | cons _ _ ih => omega

theorem Tiled.snoc {w v : Nat} (h : p.Tiled w v) (taken : p.window v = .taken k) :
    p.Tiled w (v + k.span) := by
  induction h with
  | nil w => exact .cons taken (.nil _)
  | cons first _ ih => exact .cons first (ih taken)

/-- The cells stay where their windows do. -/
theorem Tiled.congr {q : Plan} {w v : Nat} (h : p.Tiled w v)
    (same : ∀ u, u < v → q.window u = p.window u) : q.Tiled w v := by
  induction h with
  | nil w => exact .nil w
  | @cons w v k taken rest ih =>
    have := rest.le
    have := k.span_pos
    exact .cons (by rw [same w (by omega), taken]) (ih same)

/-- The search for a vacant window comes to the end of the cells. -/
theorem Tiled.vacantFrom {w v windows : Nat} (h : p.Tiled w v) (vacant : p.window v = .vacant)
    (inside : v < L.data) (enough : L.data ≤ w + 16 * windows) :
    p.vacantFrom L windows w = some v := by
  induction h generalizing windows with
  | nil w =>
    obtain ⟨n, rfl⟩ : ∃ n, windows = n + 1 := ⟨windows - 1, by omega⟩
    rw [Plan.vacantFrom, if_neg (Nat.not_le_of_lt inside), vacant]
  | @cons w v k taken rest ih =>
    have := rest.le
    have := k.span_pos
    obtain ⟨n, rfl⟩ : ∃ n, windows = n + 1 := ⟨windows - 1, by omega⟩
    rw [Plan.vacantFrom, if_neg (by omega), taken]
    exact ih vacant inside (by omega)

/-- The cells of all values stand one right behind the other, nothing was ever behind them, and a name
that waits for a cell waits for the next one. -/
structure Packed (p : Plan) : Prop where
  tiled : p.Tiled 0 p.used
  beyond : ∀ w, p.used ≤ w → p.window w = .vacant
  waiting : ∀ name slot, name ∉ p.names → p.slots.lookup name = some slot → slot = p.used

namespace Packed

theorem start : Packed {} := ⟨.nil 0, fun _ _ => rfl, fun _ _ _ bound => by cases bound⟩

/-- A name without a value gets the window behind all cells. -/
theorem place_eq (packed : p.Packed) (new : target ∉ p.names) (inside : p.used < L.data) :
    p.place L target = some p.used := by
  have whole := L.data_aligned
  rw [place]
  cases bound : p.slots.lookup target with
  | some slot => rw [packed.waiting target slot new bound, Option.some_or]
  | none =>
    rw [Option.none_or]
    exact packed.tiled.vacantFrom (packed.beyond _ (Nat.le_refl _)) inside (by omega)

theorem room (packed : p.Packed) (sound : p.Sound L) (new : target ∉ p.names)
    (fits : p.Fits L target k) : p.Room L target k p.used := by
  obtain ⟨settled, fits⟩ := fits
  have pos := k.span_pos
  have sole {w : Nat} (far : p.used ≤ w) : p.Sole target w :=
    sound.sole_of_vacant settled (packed.beyond w far)
  refine ⟨packed.place_eq new (by omega), sole (Nat.le_refl _), ?_⟩
  rintro rfl
  exact ⟨fits, sole (Nat.le_add_right _ _)⟩

/-- A new cell stands behind all others. -/
theorem assign_new (packed : p.Packed) (sound : p.Sound L) (new : target ∉ p.names)
    (fits : p.Fits L target k) : (p.assign target p.used k).Packed := by
  have room := packed.room sound new fits
  have used : (p.assign target p.used k).used = k.span + p.used := sound.used_assign room new
  refine ⟨?_, ?_, ?_⟩
  · rw [used, Nat.add_comm]
    refine Tiled.snoc (packed.tiled.congr fun u before => ?_) window_assign_self
    exact window_assign_of_ne (by omega) fun _ => by omega
  · intro w far
    rw [used] at far
    have pos := k.span_pos
    rw [window_assign_of_ne (by omega) ?_, packed.beyond w (by omega)]
    rintro rfl
    have wide : Kind.string.span = 32 := rfl
    omega
  · intro name slot unassigned bound
    have ne : name ≠ target := fun same => unassigned (same ▸ List.mem_cons_self)
    rw [lookup_assign_of_ne ne] at bound
    rcases fits.1 name slot bound with member | same
    · exact absurd (List.mem_cons_of_mem _ member) unassigned
    · exact absurd same ne

theorem assign_keep (packed : p.Packed) (sound : p.Sound L) (member : target ∈ p.names)
    (bound : p.slots.lookup target = some slot) :
    (p.assign target slot (p.kindOf target)).Packed := by
  have window := sound.window_assign_keep member bound
  have used := sound.used_assign_keep member bound
  refine ⟨?_, ?_, ?_⟩
  · rw [used]
    exact packed.tiled.congr fun u _ => by rw [window]
  · rw [window, used]
    exact packed.beyond
  · intro name w unassigned bound'
    rw [lookup_assign_of_eq bound] at bound'
    rw [used]
    exact packed.waiting name w (fun before => unassigned (List.mem_cons_of_mem _ before)) bound'

theorem reserve (packed : p.Packed) (sound : p.Sound L) (placed : p.place L target = some slot)
    (here : target ∉ p.names → slot = p.used) : (p.reserve L target).Packed := by
  have used := sound.used_reserve placed
  refine ⟨?_, ?_, ?_⟩
  · rw [used]
    exact packed.tiled.congr fun _ _ => rfl
  · rw [used]
    exact packed.beyond
  · intro name w unassigned bound
    rw [used]
    rw [lookup_reserve placed] at bound
    split at bound
    · rename_i same
      subst same
      cases bound
      exact here unassigned
    · exact packed.waiting name w unassigned bound

end Packed

/-! ## Cells of one size -/

/-- All cells are of one kind and start a whole number of cells on. -/
structure Uniform (L : Layout) (k : Kind) (p : Plan) : Prop where
  kinds : ∀ slot k', p.window slot = .taken k' → k' = k
  slots : ∀ name slot, p.slots.lookup name = some slot → slot % k.span = 0 ∧ slot + k.span ≤ L.data
  stale : ∀ slot, p.window slot = .stale → slot % k.span ≠ 0

namespace Uniform

theorem start (L : Layout) (k : Kind) : Uniform L k {} where
  kinds _ _ taken := by cases taken
  slots _ _ bound := by cases bound
  stale _ stale := by cases stale

theorem kindOf_eq (uniform : p.Uniform L k) (sound : p.Sound L) (member : name ∈ p.names) :
    p.kindOf name = k := by
  obtain ⟨slot, k', bound, taken⟩ := sound.held name member
  rw [kindOf_of_lookup bound, taken]
  exact uniform.kinds slot k' taken

/-- Names with values have a cell each. -/
theorem length_mul_le (uniform : p.Uniform L k) (sound : p.Sound L) {names : List String}
    (distinct : names.Nodup) (members : ∀ name ∈ names, name ∈ p.names) :
    names.length * k.span ≤ p.used := by
  have kinds : ∀ name ∈ p.names, k = p.kindOf name := fun name member =>
    (uniform.kindOf_eq sound member).symm
  rw [p.used_eq kinds, List.map_const', List.sum_replicate_nat]
  apply Nat.mul_le_mul_right
  exact (List.subperm_of_subset distinct fun name member =>
    List.mem_dedup.2 (members name member)).length_le

/-- The search for a vacant window ends at the start of a cell. The cells before it have values, those of
the names `seen`, and there are not enough of them to fill the data section. -/
theorem vacantFrom (uniform : p.Uniform L k) (sound : p.Sound L) (fits : p.used + k.span ≤ L.data)
    (windows : Nat) {w : Nat} (seen : List String) (distinct : seen.Nodup)
    (before : ∀ name ∈ seen, name ∈ p.names ∧ ∃ slot < w, p.slots.lookup name = some slot)
    (here : w = seen.length * k.span) (enough : L.data ≤ w + 16 * windows) :
    ∃ slot, p.vacantFrom L windows w = some slot ∧ slot % k.span = 0 ∧ slot + k.span ≤ L.data := by
  have pos := k.span_pos
  have inside := uniform.length_mul_le sound distinct fun name member => (before name member).1
  have whole : w % k.span = 0 := by rw [here, Nat.mul_mod_left]
  induction windows generalizing w seen with
  | zero => omega
  | succ windows ih =>
    rw [Plan.vacantFrom, if_neg (by omega)]
    cases known : p.window w with
    | vacant => exact ⟨w, rfl, whole, by omega⟩
    | stale => exact absurd whole (uniform.stale w known)
    | taken k' =>
      obtain ⟨name, member, bound⟩ := sound.owned w k' known
      have same := uniform.kinds w k' known
      show ∃ slot, p.vacantFrom L windows (w + k'.span) = some slot ∧ _
      rw [same]
      -- the name is not among those before it, whose slots are smaller
      have new : name ∉ seen := by
        intro again
        obtain ⟨-, slot, less, bound'⟩ := before name again
        rw [bound] at bound'
        cases bound'
        exact Nat.lt_irrefl _ less
      have distinct' : (name :: seen).Nodup := List.nodup_cons.2 ⟨new, distinct⟩
      have before' : ∀ other ∈ name :: seen,
          other ∈ p.names ∧ ∃ slot < w + k.span, p.slots.lookup other = some slot := by
        intro other among
        rcases List.mem_cons.1 among with rfl | among
        · exact ⟨member, w, by omega, bound⟩
        · obtain ⟨member', slot, less, bound'⟩ := before other among
          exact ⟨member', slot, by omega, bound'⟩
      have next : w + k.span = (name :: seen).length * k.span := by
        rw [List.length_cons, Nat.succ_mul, here]
      exact ih (name :: seen) distinct' before' next (by omega)
        (uniform.length_mul_le sound distinct' fun other among => (before' other among).1)
        (by rw [next, Nat.mul_mod_left])

/-- A name that has a value, or for which there is a cell left, is placed at the start of a cell. -/
theorem place (uniform : p.Uniform L k) (sound : p.Sound L)
    (allowed : target ∈ p.names ∨ p.Fits L target k) :
    ∃ slot, p.place L target = some slot ∧ slot % k.span = 0 ∧ slot + k.span ≤ L.data := by
  have whole := L.data_aligned
  rw [Plan.place]
  cases bound : p.slots.lookup target with
  | some slot => exact ⟨slot, Option.some_or, uniform.slots target slot bound⟩
  | none =>
    rcases allowed with member | ⟨-, fits⟩
    · obtain ⟨slot, _, bound', -⟩ := sound.held target member
      rw [bound] at bound'
      cases bound'
    · rw [Option.none_or]
      refine uniform.vacantFrom sound fits _ [] List.nodup_nil ?_ (Nat.zero_mul _).symm (by omega)
      intro name among
      cases among

theorem room (uniform : p.Uniform L k) (sound : p.Sound L)
    (allowed : target ∈ p.names ∨ p.Fits L target k) :
    ∃ slot, p.Room L target k slot ∧ slot % k.span = 0 ∧ slot + k.span ≤ L.data := by
  obtain ⟨slot, placed, whole, fits⟩ := uniform.place sound allowed
  refine ⟨slot, ⟨placed, ?_, ?_⟩, whole, fits⟩
  · rcases sound.window_place placed with ⟨member, bound⟩ | ⟨new, vacant⟩
    · exact sound.sole target member slot bound
    · exact sound.sole_of_vacant (allowed.resolve_left new).1 vacant
  · rintro rfl
    refine ⟨fits, fun other bound => ?_⟩
    have whole' : (slot + 16) % 32 = 0 := (uniform.slots other (slot + 16) bound).1
    have whole : slot % 32 = 0 := whole
    omega

/-- One more cell of the kind; the stale half of a string does not start a whole number of strings on. -/
theorem assign (uniform : p.Uniform L k) (whole : slot % k.span = 0) (fits : slot + k.span ≤ L.data) :
    (p.assign target slot k).Uniform L k := by
  refine ⟨?_, ?_, ?_⟩
  · intro w k' taken
    rcases window_assign_taken taken with ⟨-, rfl⟩ | ⟨-, before⟩
    · rfl
    · exact uniform.kinds w k' before
  · intro name w bound
    by_cases here : name = target
    · subst here
      rw [lookup_assign_self] at bound
      cases bound
      exact ⟨whole, fits⟩
    · rw [lookup_assign_of_ne here] at bound
      exact uniform.slots name w bound
  · intro w stale
    have away : w ≠ slot := by
      rintro rfl
      rw [window_assign_self] at stale
      cases stale
    by_cases behind : k = .string ∧ w = slot + 16
    · obtain ⟨rfl, rfl⟩ := behind
      intro whole'
      have whole : slot % 32 = 0 := whole
      have whole' : (slot + 16) % 32 = 0 := whole'
      omega
    · rw [window_assign_of_ne away fun string same => behind ⟨string, same⟩] at stale
      exact uniform.stale w stale

theorem delete (uniform : p.Uniform L k) (name : String) : (p.delete name).Uniform L k := by
  refine ⟨?_, ?_, ?_⟩
  · intro w k' taken
    exact uniform.kinds w k' (window_delete_taken taken).2
  · intro other w bound
    rw [lookup_delete] at bound
    split at bound
    · cases bound
    · exact uniform.slots other w bound
  · intro w stale
    rw [window_delete_eq] at stale
    split at stale
    · cases stale
    · exact uniform.stale w stale

theorem reserve (uniform : p.Uniform L k) (placed : p.place L target = some slot)
    (whole : slot % k.span = 0) (fits : slot + k.span ≤ L.data) :
    (p.reserve L target).Uniform L k := by
  refine ⟨uniform.kinds, ?_, uniform.stale⟩
  intro name w bound
  rw [lookup_reserve placed] at bound
  split at bound
  · cases bound
    exact ⟨whole, fits⟩
  · exact uniform.slots name w bound

end Uniform
end Plan

/-! ## What the disciplines keep -/

/-- How the cells stand under a discipline. -/
def Discipline.Orderly (L : Layout) (p : Plan) : Discipline → Prop
  | .lasting => p.Packed
  | .uniform kind => p.Uniform L kind
  | .planned => True

namespace Discipline

variable {d : Discipline} {s : Statement} {e : Expr}

theorem Orderly.start (L : Layout) (d : Discipline) : d.Orderly L {} := by
  cases d with
  | lasting => exact Plan.Packed.start
  | uniform kind => exact Plan.Uniform.start L kind
  | planned => trivial

/-- There is always room for the value of an assignment. -/
theorem Orderly.room (orderly : d.Orderly L p) (sound : p.Sound L)
    (allowed : d.Allows L p (.assign target e)) :
    ∃ slot, p.Room L target (e.kind p.kindOf) slot := by
  have again (keeps : p.Keeps target (e.kind p.kindOf)) :
      ∃ slot, p.Room L target (e.kind p.kindOf) slot := by
    obtain ⟨member, same⟩ := keeps
    obtain ⟨slot, _, bound, -⟩ := sound.held target member
    exact ⟨slot, same ▸ sound.room member bound⟩
  cases d with
  | lasting =>
    rcases allowed with keeps | ⟨new, fits⟩
    · exact again keeps
    · exact ⟨_, Plan.Packed.room orderly sound new fits⟩
  | uniform kind =>
    obtain ⟨same, allowed⟩ := allowed
    obtain ⟨slot, room, -⟩ := Plan.Uniform.room orderly sound allowed
    exact ⟨slot, same ▸ room⟩
  | planned => exact allowed.elim again id

/-- The data section of 48 bytes holds a string next to an integer, but not two strings. -/
example : Discipline.lasting.Allows .tiny (({} : Plan).assign "x" 0 .integer) (.assign "y" (.str [97])) ∧
    ¬ Discipline.lasting.Allows .tiny (({} : Plan).assign "x" 0 .string) (.assign "y" (.str [97])) := by
  decide +kernel

/-- A statement that succeeds keeps the cells in order. -/
theorem Orderly.after (orderly : d.Orderly L p) (sound : p.Sound L) (allowed : d.Allows L p s) :
    d.Orderly L (p.after L s) := by
  cases d with
  | planned => trivial
  | lasting =>
    cases s with
    | print name | printLog => exact orderly
    | delete name => exact allowed.elim
    | assign target e =>
      rcases allowed with ⟨member, same⟩ | ⟨new, fits⟩
      · obtain ⟨slot, _, bound, -⟩ := sound.held target member
        rw [Plan.after, (sound.room member bound).placed, ← same]
        exact Plan.Packed.assign_keep orderly sound member bound
      · rw [Plan.after, (Plan.Packed.room orderly sound new fits).placed]
        exact Plan.Packed.assign_new orderly sound new fits
  | uniform kind =>
    cases s with
    | print name | printLog => exact orderly
    | delete name => exact Plan.Uniform.delete orderly name
    | assign target e =>
      obtain ⟨same, allowed⟩ := allowed
      obtain ⟨slot, room, whole, fits⟩ := Plan.Uniform.room orderly sound allowed
      rw [Plan.after, room.placed, same]
      exact Plan.Uniform.assign orderly whole fits

/-- So does an assignment that fails after it has bound its target. -/
theorem Orderly.reserve (orderly : d.Orderly L p) (sound : p.Sound L)
    (allowed : d.Allows L p (.assign target e)) : d.Orderly L (p.reserve L target) := by
  cases d with
  | planned => trivial
  | lasting =>
    rcases allowed with ⟨member, -⟩ | ⟨new, fits⟩
    · obtain ⟨slot, _, bound, -⟩ := sound.held target member
      exact Plan.Packed.reserve orderly sound (sound.room member bound).placed (absurd member)
    · exact Plan.Packed.reserve orderly sound (Plan.Packed.room orderly sound new fits).placed fun _ => rfl
  | uniform kind =>
    obtain ⟨-, allowed⟩ := allowed
    obtain ⟨slot, placed, whole, fits⟩ := Plan.Uniform.place orderly sound allowed
    exact Plan.Uniform.reserve orderly placed whole fits

end Discipline
end Osl
