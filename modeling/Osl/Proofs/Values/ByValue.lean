import Osl.Proofs.Integer.Correctness
import Osl.Proofs.Values.Simulation

/-!
# Programs with values of both kinds

Names of integers and names of strings live side by side if no name changes its kind and none is
forgotten. A long string is shared: all variables that it was copied to have its address. Nobody writes to
it, as an assignment goes over a string only where the new one is no longer; so if every string that is
assigned is longer than the one before, variables have the values that were assigned to them and no more
(`Program.run_eq_byValue`).
-/

namespace Osl
set_option autoImplicit false

variable {L : Layout} {r r' : Ledger} {v : Value} {log : List Byte}

/-- Whether the value is a string. -/
def Value.isString : Value → Bool
  | .integer _ => false
  | .string _ => true

/-- The value of an expression may be assigned to a name in place of its current one: there is room for the
routine and its operands, and the value is of the same kind, and if it is a string, then a longer one. -/
structure Ledger.Replaces (r : Ledger) (L : Layout) (target : String) (e : Expr) (v : Value) : Prop where
  names : ∀ name ∈ target :: e.names, name.utf8ByteSize = 1
  code : (Statement.assign target e).codeSize ≤ L.code
  stack : e.need v ≤ L.stack
  plain : ∀ n, v = .integer n → n.IsPlain
  pos : ∀ content, e = .str content → 0 < content.length
  kind : ∀ old, r.value target = some old → old.isString = v.isString
  longer : ∀ old new, r.value target = some (.string old) → v = .string new → old.length < new.length

/-- A statement replaces values by others, or prints. -/
def Statement.Replacing (L : Layout) (r : Ledger) : Statement → Prop
  | .assign target e => ∀ v, e.value? r.value = some v → r.Replaces L target e v
  | .print name => ∀ n, r.value name = some (.integer n) → n.toNat < addressThreshold
  | .delete _ => False
  | .printLog => True

/-- Values of one kind have cells of one width. -/
theorem Value.span_eq_of_isString {v v' : Value} (same : v.isString = v'.isString) :
    v.span = v'.span := by
  cases v <;> cases v' <;> first | rfl | cases same

namespace Ledger.Replaces

variable {target : String} {e : Expr} (h : r.Replaces L target e v)

include h

/-- Nothing is left of the value that is replaced. -/
theorem laidOver_eq : Value.laidOver (r.value target) v = v := by
  cases old : r.value target with
  | none => exact v.laidOver_none
  | some v' =>
    cases v with
    | integer n => exact Value.laidOver_integer (some v') n
    | string new =>
      cases v' with
      | integer n => cases h.kind _ old
      | string content => exact Value.laidOver_longer (h.longer content new old rfl)

/-- What replaces a value is admitted, with cells made up of the smallest blocks. -/
theorem admits (fits : (r.set target (some v)).Fits L.data) : r.Admits L 16 target e v := by
  refine ⟨h.names, h.code, h.stack, ?_, h.plain, h.pos, ?_, ?_, fits⟩
  · rcases v.span_eq with span | span <;> rw [span]
  · exact fun old held => Value.span_eq_of_isString (h.kind old held)
  · intro content content' held same shorter
    have longer := h.longer content' content held same
    omega

end Ledger.Replaces

/-- A statement that replaces values leads to the same ledger whether it goes over the beginning of
strings or not, and it is admitted. -/
theorem Statement.Replacing.step {s : Statement} (h : s.Replacing L r)
    (taken : s.interpret Value.alone log r = some r') (fits : r'.Fits L.data) :
    s.interpret Value.laidOver log r = some r' ∧ s.Admitted L 16 r := by
  cases s with
  | assign target e =>
    cases takes_of_interpret taken with
    | @assign target e v value =>
      have replaces : r.Replaces L target e v := h v value
      refine ⟨?_, fun v' value' => ?_⟩
      · rw [interpret, value]
        show some (r.set target (some (Value.laidOver (r.value target) v))) = _
        rw [replaces.laidOver_eq]
        rfl
      · cases value.symm.trans value'
        exact replaces.admits fits
  | print name => exact ⟨taken, h⟩
  | delete name => exact h.elim
  | printLog => exact ⟨taken, trivial⟩

/-- A program that replaces values by others of the same kind, and strings by longer ones, succeeds with
the output of the interpreter by value, as long as it fits the arena that the configuration asks for; and
after each of its statements the executor shows the values of the interpreter. -/
theorem Program.run_eq_byValue {c : Config} {world : Surroundings} {p : Program} {r : Ledger}
    (valid : c.layout = .ok L) (reservable : L.size < Arena.reserveLimit)
    (directory : c.sinkDir.all world.hasDirectory) (room : p.literalSize ≤ L.literal)
    (runs : p.Leads Value.alone world.log.content
      (fun r s r' => s.Replacing L r ∧ r'.Fits L.data) {} r) :
    p.run c world = .ok r.output ∧
      ∃ x, Executor.create c world = .ok ⟨L, x⟩ ∧
        ∀ before after, p = before ++ after →
          ∃ r₁ y, before.Leads Value.alone world.log.content
              (fun r s r' => s.Replacing L r ∧ r'.Fits L.data) {} r₁ ∧
            Executor.executeAll (fun _ _ seen => seen) before x () = (none, y, ()) ∧
            y.Shows r₁.value := by
  refine Program.run_of_leads valid reservable directory room (.inl rfl) (fun _ => True) trivial ?_ runs
  rintro s _ r r' - taken ⟨replacing, fits⟩
  obtain ⟨taken', admitted⟩ := replacing.step taken fits
  exact ⟨taken', admitted, trivial⟩

/-- A program of integers and strings in which a string is copied and then outgrows its cell:
`s = "abc"; t = s; n = 2 * 3; s = "seventeen letters"; print t; print s; print n;` -/
def Program.outgrowing : Program :=
  [.assign "s" (.str [97, 98, 99]), .assign "t" (.var "s"), .assign "n" (.arith .mul (.int 2) (.int 3)),
    .assign "s" (.str [115, 101, 118, 101, 110, 116, 101, 101, 110, 32, 108, 101, 116, 116, 101, 114, 115]),
    .print "t", .print "s", .print "n"]

theorem Program.run_outgrowing : Program.outgrowing.run {} {} =
    .ok [97, 98, 99, 10, 115, 101, 118, 101, 110, 116, 101, 101, 110, 32, 108, 101, 116, 116, 101, 114, 115,
      10, 54, 10] := by
  obtain ⟨r, runs, output⟩ : ∃ r : Ledger, Program.outgrowing.Leads Value.alone []
      (fun r s _ => s.Replacing .standard r) {} r ∧ r.output = [97, 98, 99, 10, 115, 101, 118, 101, 110,
        116, 101, 101, 110, 32, 108, 101, 116, 116, 101, 114, 115, 10, 54, 10] := by
    refine ⟨_, .cons rfl ?_ (.cons rfl ?_ (.cons rfl ?_ (.cons rfl ?_ (.cons rfl ?_ (.cons rfl ?_
      (.cons rfl ?_ (.nil _))))))), rfl⟩
    · rintro v ⟨⟩
      refine ⟨by decide, by decide, by decide, ?_, ?_, ?_, ?_⟩
      · rintro n ⟨⟩
      · rintro content ⟨⟩
        decide
      · rintro old ⟨⟩
      · rintro old new ⟨⟩
    · rintro v ⟨⟩
      refine ⟨by decide, by decide, by decide, ?_, ?_, ?_, ?_⟩
      · rintro n ⟨⟩
      · rintro content ⟨⟩
      · rintro old ⟨⟩
      · rintro old new ⟨⟩
    · rintro v ⟨⟩
      refine ⟨by decide, by decide, by decide, ?_, ?_, ?_, ?_⟩
      · rintro n ⟨⟩
        exact .inl (by decide)
      · rintro content ⟨⟩
      · rintro old ⟨⟩
      · rintro old new ⟨⟩
    · rintro v ⟨⟩
      refine ⟨by decide, by decide, by decide, ?_, ?_, ?_, ?_⟩
      · rintro n ⟨⟩
      · rintro content ⟨⟩
        decide
      · rintro old ⟨⟩
        rfl
      · rintro old new ⟨⟩ ⟨⟩
        decide
    · rintro n ⟨⟩
    · rintro n ⟨⟩
    · rintro n ⟨⟩
      decide
  have targets : ∀ s ∈ Program.outgrowing, ∀ name ∈ s.target?, name ∈ ["s", "t", "n"] := by decide
  have fits := runs.hasAtMost targets (by decide : 3 ≤ Layout.standard.data / 32)
    fun _ _ _ replacing few => (⟨replacing, few.fits⟩ : _ ∧ _)
  have computed := @Program.run_eq_byValue .standard {} {} _ _ rfl (by decide) rfl (by decide) fits
  rw [← output]
  exact computed.1

end Osl
