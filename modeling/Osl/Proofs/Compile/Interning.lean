import Osl.Proofs.Arena.Content
import Osl.Proofs.Compile.Workspace
import Osl.Proofs.Ranges

/-!
# Literals laid down one after another

`internEach` calls `intern` once for each of a list of contents and goes on whatever a call gives, so
that a string that does not fit may be followed by shorter ones that do. Each call is recorded with the
workspaces before and after it (`InternCall`).

What one call does is `InternCall.Lawful`, said of the address that is next in line. The strings of the
calls that succeed fill the literal section without gaps (`Arena.FilledWith`): a call adds its string at
the end of those, and later calls write behind it only. That they do not overlap, and that every byte
written belongs to one of them, follows from the filling alone (`Adjoining`).
-/

namespace Osl
set_option autoImplicit false

variable {L : Layout}

/-! ## Strings without gaps -/

/-- A string that was laid down. -/
structure Laid where
  header : Header
  content : List Byte

namespace Laid

/-- The address of the string. -/
def start (s : Laid) : Nat := s.header.address.toNat

/-- The first address past the string and the zero byte behind it. -/
def stop (s : Laid) : Nat := s.start + (s.header.length.toNat + 1)

/-- The number of bytes that strings take up, each with a zero byte behind it. -/
def size : List Laid → Nat
  | [] => 0
  | s :: rest => s.content.length + 1 + size rest

end Laid

/-- From `p` up to `q` the strings follow each other, each with a zero byte behind it. -/
structure Arena.FilledWith (a : Arena L) (p : Nat) (strings : List Laid) (q : Nat) : Prop where
  adjoining : Adjoining Laid.start Laid.stop p strings q
  length : ∀ s ∈ strings, s.header.length.toNat = s.content.length
  bytes : ∀ s ∈ strings, a.bytes s.start (s.header.length.toNat + 1) = s.content ++ [0]

namespace Arena.FilledWith

variable {a b : Arena L} {p q : Nat} {strings : List Laid}

theorem nil (a : Arena L) (p : Nat) : a.FilledWith p [] p :=
  ⟨rfl, List.forall_mem_nil _, List.forall_mem_nil _⟩

/-- A string in front of those that are written stays. -/
theorem cons {s : Laid} {hi : Nat} (start : s.start = p)
    (length : s.header.length.toNat = s.content.length)
    (content : a.bytes p (s.content.length + 1) = s.content ++ [0])
    (same : a.SameOutside b (p + (s.content.length + 1)) hi)
    (filled : b.FilledWith (p + (s.content.length + 1)) strings q) :
    b.FilledWith p (s :: strings) q := by
  have stop : s.stop = p + (s.content.length + 1) := by rw [Laid.stop, start, length]
  refine ⟨⟨start, ?_, ?_⟩, List.forall_mem_cons.2 ⟨length, filled.length⟩,
    List.forall_mem_cons.2 ⟨?_, filled.bytes⟩⟩
  · rw [stop]
    exact Nat.le_add_right _ _
  · rw [stop]
    exact filled.adjoining
  · rw [start, length, same.bytes (.inl (Nat.le_refl _)), content]

/-- Strings fill up as many bytes as they have. -/
theorem end_eq (h : a.FilledWith p strings q) : q = p + Laid.size strings := by
  obtain ⟨adjoining, length, -⟩ := h
  induction strings generalizing p with
  | nil => exact adjoining.symm
  | cons s rest ih =>
    obtain ⟨start, -, later⟩ := adjoining
    obtain ⟨here, length⟩ := List.forall_mem_cons.1 length
    rw [ih later length, Laid.stop, start, here, Laid.size, Nat.add_assoc]

end Arena.FilledWith

namespace Compile

/-! ## One call -/

/-- A call of `intern`: the workspace before it, the content it was given, what it gave, and the
workspace that it has left. -/
structure InternCall (L : Layout) where
  before : Workspace L
  content : List Byte
  result : Except CompileError Header
  after : Workspace L

namespace InternCall

/-- The call with a content in a workspace. -/
def make (before : Workspace L) (content : List Byte) : InternCall L :=
  match intern content before with
  | .ok header after => ⟨before, content, .ok header, after⟩
  | .error e after => ⟨before, content, .error e, after⟩

/-- The string that the call has laid down. -/
def laid? (call : InternCall L) : Option Laid :=
  match call.result with
  | .ok header => some ⟨header, call.content⟩
  | .error _ => none

/-- The call does what it should when the literal section is free from `p` on. -/
structure Lawful (call : InternCall L) (p : Nat) : Prop where
  next : call.before.literals.next = p
  succeeds : (∃ header, call.result = .ok header) ↔
    call.before.literals.next + (call.content.length + 1) ≤ L.stop
  header : ∀ header, call.result = .ok header →
    header.address.toNat = p ∧ header.length.toNat = call.content.length ∧
      Word.bytes header.low ++ Word.bytes header.high =
        call.content.take inlineCapacity ++ List.replicate (inlineCapacity - call.content.length) 0
  fails : ∀ e, call.result = .error e →
    e = .literal ⟨call.content.length + 1, L.stop - p⟩ ∧ call.after = call.before

variable {w : Workspace L} {content : List Byte}

theorem content_make (w : Workspace L) (content : List Byte) :
    (make w content).content = content := by
  unfold make
  cases intern content w <;> rfl

theorem before_make (w : Workspace L) (content : List Byte) : (make w content).before = w := by
  unfold make
  cases intern content w <;> rfl

/-- The call with a content for which there is room. -/
theorem make_of_le (fits : w.literals.next + (content.length + 1) ≤ L.stop) :
    make w content = ⟨w, content, .ok (Header.of (.ofNat w.literals.next) content),
      { w with
        literals := ⟨w.literals.next + (content.length + 1),
          Nat.le_trans w.literals.low (Nat.le_add_right _ _), fits⟩
        arena := w.arena.overlay w.literals.next (content ++ [0]) }⟩ := by
  rw [make, intern_of_le fits]

/-- The call with a content for which there is no room. -/
theorem make_of_lt (large : L.stop < w.literals.next + (content.length + 1)) :
    make w content =
      ⟨w, content, .error (.literal ⟨content.length + 1, w.literals.remaining⟩), w⟩ := by
  rw [make, intern_of_lt large]

/-- The length of a string that fits is a word. -/
theorem toNat_length (fits : w.literals.next + (content.length + 1) ≤ L.stop) :
    (UInt64.ofNat content.length).toNat = content.length := by
  have := L.stop_lt
  exact Word.toNat_ofNat_of_lt (by omega)

theorem lawful_make (w : Workspace L) (content : List Byte) :
    (make w content).Lawful w.literals.next := by
  by_cases fits : w.literals.next + (content.length + 1) ≤ L.stop
  · rw [make_of_le fits]
    refine ⟨rfl, iff_of_true ⟨_, rfl⟩ fits, fun header given => ?_, fun e given => (nomatch given)⟩
    cases given
    exact ⟨w.literals.toNat_next, toNat_length fits, Header.bytes_of _ content⟩
  · rw [make_of_lt (Nat.lt_of_not_le fits)]
    refine ⟨rfl, iff_of_false (fun ⟨header, given⟩ => nomatch given) fits,
      fun header given => (nomatch given), fun e given => ?_⟩
    cases given
    exact ⟨rfl, rfl⟩

end InternCall

/-! ## Calls one after another -/

/-- One call for each of the contents, each in the workspace that the one before it has left. -/
def internEach (w : Workspace L) : (contents : List (List Byte)) → List (InternCall L)
  | [] => []
  | content :: rest => .make w content :: internEach (InternCall.make w content).after rest

/-- The workspace after calls that have started from `w`. -/
def leftBy (w : Workspace L) (calls : List (InternCall L)) : Workspace L :=
  calls.foldl (fun _ call => call.after) w

/-- The strings that calls have laid down. -/
def laid (calls : List (InternCall L)) : List Laid := calls.filterMap (·.laid?)

variable {w : Workspace L} {content : List Byte} {contents : List (List Byte)}
  {calls earlier later : List (InternCall L)} {call : InternCall L}

/-- Calls fill the literal section from where it was free, and write nowhere else. -/
structure Fill (w : Workspace L) (calls : List (InternCall L)) : Prop where
  filled : (leftBy w calls).arena.FilledWith w.literals.next (laid calls)
    (leftBy w calls).literals.next
  same : w.arena.SameOutside (leftBy w calls).arena w.literals.next (leftBy w calls).literals.next

/-- A call in front of others: its string stays, as they write behind it. -/
theorem Fill.cons (rest : Fill (InternCall.make w content).after calls) :
    Fill w (.make w content :: calls) := by
  by_cases fits : w.literals.next + (content.length + 1) ≤ L.stop
  · have more := rest.filled.end_eq
    have same := rest.same
    have filled := rest.filled
    rw [InternCall.make_of_le fits] at more same filled ⊢
    have within : L.Within w.literals.next (content ++ [0]).length := by
      have := L.ordered
      have := w.literals.low
      unfold Layout.Within
      simp only [List.length_append, List.length_singleton]
      omega
    have written := Arena.bytes_overlay w.arena within
    have confined := Arena.sameOutside_overlay w.arena w.literals.next (content ++ [0])
    simp only [List.length_append, List.length_singleton] at written confined
    constructor
    · exact .cons w.literals.toNat_next (InternCall.toNat_length fits) written same filled
    · have grown := Nat.le_trans (Nat.le_add_right _ (Laid.size (laid calls))) (Nat.le_of_eq more.symm)
      exact (confined.mono (Nat.le_refl _) grown).trans
        (same.mono (Nat.le_add_right _ _) (Nat.le_refl _))
  · rw [InternCall.make_of_lt (Nat.lt_of_not_le fits)] at rest ⊢
    exact ⟨rest.filled, rest.same⟩

theorem fill_internEach (w : Workspace L) (contents : List (List Byte)) :
    Fill w (internEach w contents) := by
  induction contents generalizing w with
  | nil => exact ⟨.nil _ _, .refl _ _ _⟩
  | cons content rest ih => exact .cons (ih _)

theorem map_content_internEach (w : Workspace L) (contents : List (List Byte)) :
    (internEach w contents).map (·.content) = contents := by
  induction contents generalizing w with
  | nil => rfl
  | cons content rest ih => rw [internEach, List.map_cons, ih, InternCall.content_make]

/-- Calls in front of others are those with the contents in front, and the others go on from the
workspace they have left. -/
theorem internEach_eq_append (h : internEach w contents = earlier ++ later) :
    ∃ front back, contents = front ++ back ∧ earlier = internEach w front ∧
      later = internEach (leftBy w earlier) back := by
  induction earlier generalizing w contents with
  | nil => exact ⟨[], contents, rfl, rfl, h.symm⟩
  | cons first earlier ih =>
    cases contents with
    | nil => cases h
    | cons content rest =>
      rw [internEach, List.cons_append, List.cons.injEq] at h
      obtain ⟨rfl, h⟩ := h
      obtain ⟨front, back, rfl, rfl, rfl⟩ := ih h
      exact ⟨content :: front, back, rfl, rfl, rfl⟩

/-- Each of the calls is lawful, the strings before it making up the bytes that are in use. -/
theorem lawful_of_internEach (h : internEach w contents = earlier ++ call :: later) :
    call.before = leftBy w earlier ∧ call.Lawful (w.literals.next + Laid.size (laid earlier)) := by
  obtain ⟨front, back, -, rfl, here⟩ := internEach_eq_append h
  have next := (fill_internEach w front).filled.end_eq
  cases back with
  | nil => cases here
  | cons content rest =>
    rw [internEach, List.cons.injEq] at here
    obtain ⟨rfl, -⟩ := here
    rw [← next]
    exact ⟨InternCall.before_make _ _, InternCall.lawful_make _ content⟩

/-- What calls do from a workspace on: each call by itself, and all of them together. -/
structure LawfulCalls (w : Workspace L) (calls : List (InternCall L)) : Prop where
  /-- Each call goes on where those before it have stopped. -/
  each : ∀ earlier call later, calls = earlier ++ call :: later →
    call.before = leftBy w earlier ∧ call.Lawful (L.literalBase + Laid.size (laid earlier))
  /-- In the end every string is still there. -/
  kept : ∀ s ∈ laid calls,
    (leftBy w calls).arena.bytes s.start (s.header.length.toNat + 1) = s.content ++ [0]
  inside : ∀ s ∈ laid calls, L.literalBase ≤ s.start ∧ s.stop ≤ L.stop
  apart : (laid calls).Pairwise fun s t => s.stop ≤ t.start
  /-- Apart from the strings, no byte has changed. -/
  same : ∀ p, (∀ s ∈ laid calls, p < s.start ∨ s.stop ≤ p) →
    (leftBy w calls).arena.byte p = w.arena.byte p

/-- From an arena without literals, whatever lies in it, and for whatever contents: each call succeeds
exactly if the string and its zero byte still fit, and lays it down right behind the strings before it;
in the end all of them are there, apart from each other and inside the literal section, and nothing else
has been written to. -/
theorem lawfulCalls_internEach (a : Arena L) (slots : Slots) (contents : List (List Byte)) :
    (internEach ⟨a, slots, .empty L⟩ contents).map (·.content) = contents ∧
      LawfulCalls ⟨a, slots, .empty L⟩ (internEach ⟨a, slots, .empty L⟩ contents) := by
  refine ⟨map_content_internEach _ contents, ?_⟩
  have fill := fill_internEach (⟨a, slots, .empty L⟩ : Workspace L) contents
  have high := (leftBy ⟨a, slots, .empty L⟩
    (internEach (⟨a, slots, .empty L⟩ : Workspace L) contents)).literals.high
  refine ⟨fun earlier call later split => lawful_of_internEach split, fill.filled.bytes,
    fun s member => ?_, fill.filled.adjoining.apart, fun p untouched => fill.same p ?_⟩
  · obtain ⟨low, stop⟩ := fill.filled.adjoining.bounds s member
    exact ⟨low, Nat.le_trans stop high⟩
  · apply Decidable.byContradiction
    intro filled
    -- an address in the filled part belongs to one of the strings
    obtain ⟨s, member, low, stop⟩ := fill.filled.adjoining.exists_mem_iff.2
      (⟨by omega, by omega⟩ : _ ≤ p ∧ p < _)
    have := untouched s member
    omega

end Compile
end Osl
