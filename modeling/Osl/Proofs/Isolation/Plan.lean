import Osl.Proofs.Isolation.Careful
import Osl.Proofs.Slots.Placement

/-!
# Planning cells

Which window the search for a free one comes to can be told from the statements alone, without the
memory: cells that hold values are stepped over by the sizes of their kinds, cells that were given up look
free again, and only of the second halves of strings nothing is known. A `Plan` keeps track of this.
`Plan.after` says what becomes of it when a statement succeeds, and `Plan.reserve` when an assignment fails
after it has bound its target. A plan stays `Sound` as long as there is `Room` for every value.
-/

namespace Osl
set_option autoImplicit false

/-- The kinds of values. -/
inductive Kind
  | integer
  | string
  deriving DecidableEq

/-- What the window of a cell looks like that holds a value of the kind. -/
def Kind.shape : Kind → Shape
  | .integer => .integer
  | .string => .string

/-- The number of bytes that the cell of a value of the kind takes up. -/
def Kind.span (kind : Kind) : Nat := kind.shape.span

def Value.kind : Value → Kind
  | .integer _ => .integer
  | .string _ => .string

theorem Value.span_kind (v : Value) : v.span = v.kind.span := by cases v <;> rfl

theorem Kind.span_pos (kind : Kind) : 16 ≤ kind.span := by cases kind <;> decide

/-- A window that is neither that of a cell nor the second half of it lies apart. -/
theorem Kind.apart_of_ne (k : Kind) {slot w : Nat} (aligned : slot % 16 = 0) (aligned' : w % 16 = 0)
    (here : w ≠ slot) (behind : k = .string → w ≠ slot + 16) :
    slot + k.span ≤ w ∨ w + 16 ≤ slot := by
  cases k with
  | integer =>
    have narrow : Kind.integer.span = 16 := rfl
    omega
  | string =>
    have wide : Kind.string.span = 32 := rfl
    have := behind rfl
    omega

theorem Kind.span_injective {k k' : Kind} (same : k.span = k'.span) : k = k' := by
  revert same
  cases k <;> cases k' <;> decide

/-- The kind of an expression over the kinds of its variables. Arithmetic makes integers. -/
def Expr.kind (kinds : String → Kind) : Expr → Kind
  | .str _ => .string
  | .var name => kinds name
  | .int _ | .arith _ _ _ | .neg _ => .integer

theorem Expr.kind_of_value? {e : Expr} {look : String → Option Value} {kinds : String → Kind}
    {v : Value} (known : ∀ name ∈ e.names, ∀ v, look name = some v → v.kind = kinds name)
    (value : e.value? look = some v) : v.kind = e.kind kinds := by
  cases e with
  | int n | str content => cases value; rfl
  | var name => exact known name (List.mem_singleton_self name) v value
  | arith op l r =>
    obtain ⟨m, n, -, -, rfl⟩ := value?_arith value
    rfl
  | neg e =>
    obtain ⟨n, -, rfl⟩ := value?_neg value
    rfl

/-- What is true of all names and their slots can be checked on the bindings. -/
theorem Slots.forall_lookup_iff {t : Slots} (P : String → Nat → Prop) :
    (∀ b ∈ t.bindings, ∀ slot ∈ t.lookup b.1, P b.1 slot) ↔
      ∀ name slot, t.lookup name = some slot → P name slot := by
  refine ⟨fun all name slot bound => ?_, fun all b _ slot bound => all b.1 slot bound⟩
  obtain ⟨front, back, same, -⟩ := List.lookup_eq_some_iff.1 bound
  exact all (name, slot) (by simp [same]) slot bound

/-- What is known of a window: that it looks free, that it starts a cell with a value, or nothing. -/
inductive Window
  | vacant
  | taken (kind : Kind)
  | stale
  deriving DecidableEq

def Window.kind : Window → Kind
  | .taken kind => kind
  | .vacant | .stale => .integer

/-- What is known after some statements: the names that have values, the slots of the names that are
bound, and the windows. -/
structure Plan where
  names : List String := []
  slots : Slots := {}
  window : Nat → Window := fun _ => .vacant

namespace Plan

variable {L : Layout} {p : Plan} {name other target : String} {slot w : Nat} {k : Kind}

/-- The kind of the value of a name. -/
def kindOf (p : Plan) (name : String) : Kind := (p.window ((p.slots.lookup name).getD 0)).kind

/-- The first vacant window at or after `offset`, looking at no more than `windows` of them. There is
none to be told if the search comes to a window of which nothing is known. -/
def vacantFrom (p : Plan) (L : Layout) : (windows : Nat) → (offset : Nat) → Option Nat
  | 0, _ => none
  | windows + 1, offset =>
    if L.data ≤ offset then none
    else match p.window offset with
      | .vacant => some offset
      | .taken kind => p.vacantFrom L windows (offset + kind.span)
      | .stale => none

/-- The slot of a name, or the one that it will be given. -/
def place (p : Plan) (L : Layout) (name : String) : Option Nat :=
  (p.slots.lookup name).or (p.vacantFrom L (L.data / 16) 0)

/-- A name is given a value in the cell at `slot`. -/
def assign (p : Plan) (name : String) (slot : Nat) (kind : Kind) : Plan where
  names := name :: p.names
  slots := p.slots.bind name slot
  window w :=
    if w = slot then .taken kind
    else if kind = .string ∧ w = slot + 16 then .stale
    else p.window w

/-- A name gives up its cell. -/
def delete (p : Plan) (name : String) : Plan where
  names := p.names.filter (· != name)
  slots := p.slots.erase name
  window w := if p.slots.lookup name = some w then .vacant else p.window w

/-- The plan after a statement that has succeeded. -/
def after (L : Layout) (p : Plan) : Statement → Plan
  | .assign target e => p.assign target ((p.place L target).getD 0) (e.kind p.kindOf)
  | .delete name => p.delete name
  | .print _ | .printLog => p

/-- The plan after an assignment that has failed and left its target bound. -/
def reserve (L : Layout) (p : Plan) (target : String) : Plan :=
  { p with slots := p.slots.bind target ((p.place L target).getD 0) }

/-- No other name has the slot. -/
def Sole (p : Plan) (name : String) (slot : Nat) : Prop :=
  ∀ other, p.slots.lookup other = some slot → other = name

/-- A value of the kind finds room at `slot`: that is the place of the name and no other name has it. For
a string the window behind it lies in the data section and is no other name's either. -/
structure Room (L : Layout) (p : Plan) (name : String) (kind : Kind) (slot : Nat) : Prop where
  placed : p.place L name = some slot
  sole : p.Sole name slot
  wide : kind = .string → slot + 32 ≤ L.data ∧ p.Sole name (slot + 16)

theorem sole_iff : (∀ other w, p.slots.lookup other = some w → w = slot → other = name) ↔
    p.Sole name slot := by
  constructor
  · intro all other bound
    exact all other slot bound rfl
  · rintro sole other w bound rfl
    exact sole other bound

instance (p : Plan) (name : String) (slot : Nat) : Decidable (p.Sole name slot) :=
  decidable_of_iff
    (∀ b ∈ p.slots.bindings, ∀ w ∈ p.slots.lookup b.1, w = slot → b.1 = name)
    ((Slots.forall_lookup_iff fun other w => w = slot → other = name).trans sole_iff)

instance (L : Layout) (p : Plan) (name : String) (kind : Kind) (slot : Nat) :
    Decidable (p.Room L name kind slot) :=
  decidable_of_iff
    (p.place L name = some slot ∧ p.Sole name slot ∧
      (kind = .string → slot + 32 ≤ L.data ∧ p.Sole name (slot + 16)))
    ⟨fun ⟨placed, sole, wide⟩ => ⟨placed, sole, wide⟩,
      fun room => ⟨room.placed, room.sole, room.wide⟩⟩

/-- The names, the slots and the windows of a plan agree with each other. -/
structure Sound (L : Layout) (p : Plan) : Prop where
  held : ∀ name ∈ p.names, ∃ slot kind, p.slots.lookup name = some slot ∧ p.window slot = .taken kind
  /-- A name that is bound but has no value has a vacant window. -/
  empty : ∀ name slot, name ∉ p.names → p.slots.lookup name = some slot → p.window slot = .vacant
  owned : ∀ slot kind, p.window slot = .taken kind → ∃ name ∈ p.names, p.slots.lookup name = some slot
  sole : ∀ name ∈ p.names, ∀ slot, p.slots.lookup name = some slot → p.Sole name slot
  string : ∀ slot, p.window slot = .taken .string → slot + 32 ≤ L.data ∧ p.window (slot + 16) = .stale

section Windows

@[simp] theorem window_assign_self : (p.assign name slot k).window slot = .taken k := if_pos rfl

theorem window_assign_of_ne (here : w ≠ slot) (behind : k = .string → w ≠ slot + 16) :
    (p.assign name slot k).window w = p.window w := by
  show (if w = slot then _ else if k = .string ∧ w = slot + 16 then _ else _) = _
  rw [if_neg here, if_neg fun both => behind both.1 both.2]

theorem window_assign_behind : (p.assign name slot .string).window (slot + 16) = .stale := by
  simp [assign]

/-- A cell with a value is the new one, or it was there before. -/
theorem window_assign_taken {k' : Kind} (taken : (p.assign name slot k).window w = .taken k') :
    (w = slot ∧ k' = k) ∨ w ≠ slot ∧ p.window w = .taken k' := by
  by_cases here : w = slot
  · rw [here, window_assign_self] at taken
    cases taken
    exact .inl ⟨here, rfl⟩
  · have behind : k = .string → w ≠ slot + 16 := by
      rintro rfl rfl
      rw [window_assign_behind] at taken
      cases taken
    rw [window_assign_of_ne here behind] at taken
    exact .inr ⟨here, taken⟩

theorem window_delete_eq (p : Plan) (name : String) (w : Nat) :
    (p.delete name).window w = if p.slots.lookup name = some w then .vacant else p.window w := rfl

theorem window_delete_of_ne (away : p.slots.lookup name ≠ some w) :
    (p.delete name).window w = p.window w := if_neg away

theorem window_delete (bound : p.slots.lookup name = some slot) :
    (p.delete name).window slot = .vacant := if_pos bound

/-- A cell with a value is not the one that was given up. -/
theorem window_delete_taken (taken : (p.delete name).window w = .taken k) :
    p.slots.lookup name ≠ some w ∧ p.window w = .taken k := by
  rw [window_delete_eq] at taken
  split at taken
  · cases taken
  · rename_i ne
    exact ⟨ne, taken⟩

theorem vacantFrom_vacant {windows offset : Nat} (h : p.vacantFrom L windows offset = some slot) :
    p.window slot = .vacant := by
  induction windows generalizing offset with
  | zero => cases h
  | succ windows ih =>
    rw [vacantFrom] at h
    split at h
    · cases h
    · split at h
      · rename_i vacant
        cases h
        exact vacant
      · exact ih h
      · cases h

end Windows

namespace Sound

/-- A new plan. -/
theorem start (L : Layout) : Sound L {} where
  held name member := by cases member
  empty _ _ _ _ := rfl
  owned slot kind taken := by cases taken
  sole name member := by cases member
  string slot taken := by cases taken

theorem kind_eq (sound : p.Sound L) (member : name ∈ p.names) (bound : p.slots.lookup name = some slot) :
    p.window slot = .taken (p.kindOf name) := by
  obtain ⟨slot', kind, bound', taken⟩ := sound.held name member
  rw [bound] at bound'
  cases bound'
  rw [kindOf, bound, Option.getD_some, taken]
  rfl

/-- Bound names start windows of which something is known. -/
theorem ne_stale (sound : p.Sound L) (bound : p.slots.lookup name = some slot) :
    p.window slot ≠ .stale := by
  by_cases member : name ∈ p.names
  · rw [sound.kind_eq member bound]
    intro same
    cases same
  · rw [sound.empty name slot member bound]
    intro same
    cases same

theorem notMem_of_vacant (sound : p.Sound L) (bound : p.slots.lookup name = some slot)
    (vacant : p.window slot = .vacant) : name ∉ p.names := by
  intro member
  rw [sound.kind_eq member bound] at vacant
  cases vacant

/-- The place of a name is vacant, unless the name has a value. -/
theorem window_place (sound : p.Sound L) (placed : p.place L name = some slot) :
    (name ∈ p.names ∧ p.slots.lookup name = some slot) ∨ name ∉ p.names ∧ p.window slot = .vacant := by
  by_cases member : name ∈ p.names
  · obtain ⟨slot', kind, bound, -⟩ := sound.held name member
    rw [place, bound, Option.some_or, Option.some.injEq] at placed
    exact .inl ⟨member, placed ▸ bound⟩
  · refine .inr ⟨member, ?_⟩
    rw [place, Option.or_eq_some_iff] at placed
    rcases placed with bound | ⟨-, found⟩
    · exact sound.empty name slot member bound
    · exact vacantFrom_vacant found

theorem place_ne_stale (sound : p.Sound L) (placed : p.place L name = some slot) :
    p.window slot ≠ .stale := by
  rcases sound.window_place placed with ⟨-, bound⟩ | ⟨-, vacant⟩
  · exact sound.ne_stale bound
  · rw [vacant]
    intro same
    cases same

/-- A cell that holds a value has room for another one of its kind. -/
theorem room (sound : p.Sound L) (member : name ∈ p.names) (bound : p.slots.lookup name = some slot) :
    p.Room L name (p.kindOf name) slot := by
  have taken := sound.kind_eq member bound
  refine ⟨by rw [place, bound, Option.some_or], sound.sole name member slot bound, fun string => ?_⟩
  rw [string] at taken
  obtain ⟨fits, stale⟩ := sound.string slot taken
  exact ⟨fits, fun other bound' => absurd stale (sound.ne_stale bound')⟩

end Sound

section Lookup

theorem lookup_assign_self : (p.assign name slot k).slots.lookup name = some slot :=
  Slots.lookup_bind_self _ _ _

theorem lookup_assign_of_ne (ne : other ≠ name) :
    (p.assign name slot k).slots.lookup other = p.slots.lookup other :=
  Slots.lookup_bind_of_ne _ _ ne

/-- A name that is given the slot that it has. -/
theorem lookup_assign_of_eq (bound : p.slots.lookup name = some slot) :
    (p.assign name slot k).slots.lookup other = p.slots.lookup other := by
  by_cases here : other = name
  · rw [here, lookup_assign_self, bound]
  · exact lookup_assign_of_ne here

theorem kindOf_of_lookup (bound : p.slots.lookup name = some slot) :
    p.kindOf name = (p.window slot).kind := by
  rw [kindOf, bound, Option.getD_some]

@[simp] theorem kindOf_assign_self : (p.assign name slot k).kindOf name = k := by
  rw [kindOf_of_lookup lookup_assign_self, window_assign_self]
  rfl

/-- The windows of the other names stay as they are. -/
theorem Room.window_eq (room : p.Room L name k slot) (ne : other ≠ name)
    (bound : p.slots.lookup other = some w) : (p.assign name slot k).window w = p.window w := by
  apply window_assign_of_ne
  · rintro rfl
    exact ne (room.sole other bound)
  · rintro string rfl
    exact ne ((room.wide string).2 other bound)

theorem Room.kindOf_eq (room : p.Room L name k slot) (ne : other ≠ name)
    (bound : p.slots.lookup other = some w) : (p.assign name slot k).kindOf other = p.kindOf other := by
  rw [kindOf_of_lookup bound, kindOf_of_lookup ((lookup_assign_of_ne ne).trans bound),
    room.window_eq ne bound]

theorem lookup_delete (p : Plan) (name other : String) :
    (p.delete name).slots.lookup other = if other = name then none else p.slots.lookup other :=
  Slots.lookup_erase _ _ _

theorem mem_delete : other ∈ (p.delete name).names ↔ other ∈ p.names ∧ other ≠ name := by
  simp [delete]

theorem lookup_reserve (placed : p.place L name = some slot) (other : String) :
    (p.reserve L name).slots.lookup other =
      if other = name then some slot else p.slots.lookup other := by
  rw [reserve, placed]
  split
  · rename_i same
    rw [same]
    exact Slots.lookup_bind_self _ _ _
  · rename_i ne
    exact Slots.lookup_bind_of_ne _ _ ne

end Lookup

namespace Sound

/-- Giving a name a value where there is room keeps the plan sound. -/
theorem assign (sound : p.Sound L) (room : p.Room L target k slot) :
    (p.assign target slot k).Sound L := by
  refine ⟨?_, ?_, ?_, ?_, ?_⟩
  · intro name member
    by_cases here : name = target
    · subst here
      exact ⟨slot, k, lookup_assign_self, window_assign_self⟩
    · obtain ⟨w, k', bound, taken⟩ := sound.held name ((List.mem_cons.1 member).resolve_left here)
      exact ⟨w, k', by rw [lookup_assign_of_ne here, bound], by rw [room.window_eq here bound, taken]⟩
  · intro name w unassigned bound
    have ne : name ≠ target := fun same => unassigned (same ▸ List.mem_cons_self)
    rw [lookup_assign_of_ne ne] at bound
    rw [room.window_eq ne bound]
    exact sound.empty name w (fun member => unassigned (List.mem_cons_of_mem _ member)) bound
  · intro w k' taken
    rcases window_assign_taken taken with ⟨rfl, rfl⟩ | ⟨here, taken⟩
    · exact ⟨target, List.mem_cons_self, lookup_assign_self⟩
    · obtain ⟨name, member, bound⟩ := sound.owned w k' taken
      have ne : name ≠ target := by
        rintro rfl
        have placed := room.placed
        rw [place, bound, Option.some_or, Option.some.injEq] at placed
        exact here placed
      exact ⟨name, List.mem_cons_of_mem _ member, by rw [lookup_assign_of_ne ne, bound]⟩
  · intro name member w bound other bound'
    by_cases here : name = target
    · subst here
      rw [lookup_assign_self] at bound
      cases bound
      by_cases here' : other = name
      · exact here'
      · rw [lookup_assign_of_ne here'] at bound'
        exact room.sole other bound'
    · rw [lookup_assign_of_ne here] at bound
      have assigned := (List.mem_cons.1 member).resolve_left here
      by_cases here' : other = target
      · subst here'
        rw [lookup_assign_self] at bound'
        cases bound'
        exact (room.sole name bound).symm
      · rw [lookup_assign_of_ne here'] at bound'
        exact sound.sole name assigned w bound other bound'
  · intro w taken
    rcases window_assign_taken taken with ⟨rfl, rfl⟩ | ⟨-, taken⟩
    · exact ⟨(room.wide rfl).1, window_assign_behind⟩
    · obtain ⟨fits, stale⟩ := sound.string w taken
      have away : w + 16 ≠ slot := by
        rintro rfl
        exact sound.place_ne_stale room.placed stale
      refine ⟨fits, ?_⟩
      show (if w + 16 = slot then _ else if k = .string ∧ w + 16 = slot + 16 then _ else _) = _
      rw [if_neg away, stale, ite_self]

/-- So does taking its value from a name. -/
theorem delete (sound : p.Sound L) (member : name ∈ p.names) : (p.delete name).Sound L := by
  obtain ⟨slot, k, bound, taken⟩ := sound.held name member
  -- the window of another name is another window
  have kept {other : String} {w : Nat} (ne : other ≠ name) (bound' : p.slots.lookup other = some w) :
      (p.delete name).window w = p.window w := by
    apply window_delete_of_ne
    intro same
    exact ne (sound.sole name member w same other bound')
  refine ⟨?_, ?_, ?_, ?_, ?_⟩
  · intro other member'
    obtain ⟨before, ne⟩ := mem_delete.1 member'
    obtain ⟨w, k', bound', taken'⟩ := sound.held other before
    exact ⟨w, k', by rw [lookup_delete, if_neg ne, bound'], by rw [kept ne bound', taken']⟩
  · intro other w unassigned bound'
    rw [lookup_delete] at bound'
    split at bound'
    · cases bound'
    · rename_i ne
      rw [kept ne bound']
      exact sound.empty other w (fun before => unassigned (mem_delete.2 ⟨before, ne⟩)) bound'
  · intro w k' taken'
    obtain ⟨ne, before'⟩ := window_delete_taken taken'
    obtain ⟨other, before, bound'⟩ := sound.owned w k' before'
    have other' : other ≠ name := by
      rintro rfl
      exact ne bound'
    exact ⟨other, mem_delete.2 ⟨before, other'⟩, by rw [lookup_delete, if_neg other', bound']⟩
  · intro other member' w bound' third bound''
    obtain ⟨before, ne⟩ := mem_delete.1 member'
    rw [lookup_delete, if_neg ne] at bound'
    rw [lookup_delete] at bound''
    split at bound''
    · cases bound''
    · exact sound.sole other before w bound' third bound''
  · intro w taken'
    obtain ⟨fits, stale⟩ := sound.string w (window_delete_taken taken').2
    refine ⟨fits, (window_delete_of_ne ?_).trans stale⟩
    intro behind
    exact sound.ne_stale behind stale

/-- A name with a value keeps its slot when a name is bound to its place. -/
theorem lookup_reserve (sound : p.Sound L) (placed : p.place L target = some slot)
    (member : name ∈ p.names) : (p.reserve L target).slots.lookup name = p.slots.lookup name := by
  rw [Plan.lookup_reserve placed]
  split
  · rename_i same
    subst same
    rcases sound.window_place placed with ⟨-, bound⟩ | ⟨unassigned, -⟩
    · exact bound.symm
    · exact absurd member unassigned
  · rfl

/-- So does binding a name to its place. -/
theorem reserve (sound : p.Sound L) (placed : p.place L target = some slot) :
    (p.reserve L target).Sound L := by
  refine ⟨?_, ?_, ?_, ?_, sound.string⟩
  · intro name member
    rw [sound.lookup_reserve placed member]
    exact sound.held name member
  · intro name w unassigned bound
    rw [Plan.lookup_reserve placed] at bound
    split at bound
    · rename_i same
      subst same
      cases bound
      rcases sound.window_place placed with ⟨member, -⟩ | ⟨-, vacant⟩
      · exact absurd member unassigned
      · exact vacant
    · exact sound.empty name w unassigned bound
  · intro w k taken
    obtain ⟨name, member, bound⟩ := sound.owned w k taken
    exact ⟨name, member, by rw [sound.lookup_reserve placed member, bound]⟩
  · intro name member w bound other bound'
    rw [sound.lookup_reserve placed member] at bound
    rw [Plan.lookup_reserve placed] at bound'
    split at bound'
    · rename_i same
      subst same
      cases bound'
      rcases sound.window_place placed with ⟨-, bound'⟩ | ⟨-, vacant⟩
      · exact sound.sole name member _ bound other bound'
      · exact absurd member (sound.notMem_of_vacant bound vacant)
    · exact sound.sole name member w bound other bound'

end Sound
end Plan
end Osl
