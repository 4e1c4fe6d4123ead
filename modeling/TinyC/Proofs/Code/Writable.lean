import TinyC.Proofs.Code.Plain
import TinyC.Proofs.Numeral

namespace TinyC

-- The operand has a text: it is one of the machine, and a number is not too long to write.
def Operand.IsWritable : Operand → Prop
  | .immediate value => Numeral.isWritable value
  | .register _ => True
  | .foreign _ => False

-- The instruction is one of the machine, and so are its operands, which can be written.
def Instruction.IsWritable : Instruction → Prop
  | .unary _ operand => operand.IsWritable
  | .binary _ source destination => source.IsWritable ∧ destination.IsWritable
  | .foreign _ => False
  | _ => True

-- A name of ASCII letters.
structure IsLetters (name : String) : Prop where
  nonempty : name ≠ ""
  letters : ∀ c ∈ name.toList, c.isAlpha

-- The instruction can be told from its line: its names are of letters, it has no argument that is
-- not written, and its operands can be written.
def Instruction.IsEncodable : Instruction → Prop
  | .directive .text argument => argument = some ""
  | .directive .globl name | .label name => ∃ text, name = some text ∧ IsLetters text
  | instruction => instruction.IsWritable

theorem Instruction.IsEncodable.isWritable {instruction : Instruction}
    (h : instruction.IsEncodable) : instruction.IsWritable := by
  cases instruction with
  | directive kind argument => trivial
  | label name => trivial
  | nullary op => trivial
  | unary op operand => exact h
  | binary op source destination => exact h
  | foreign text => exact h

theorem Numeral.written_of_isWritable {value : Int} (h : Numeral.isWritable value) :
    Numeral.written value = .ok (Numeral.decimal value) := if_pos h

theorem Numeral.isWritable_of_word {value : Int} (h : 0 ≤ value ∧ value < 0x100000000) :
    Numeral.isWritable value :=
  decide_eq_true (Numeral.length_decimalDigits_word (n := value.natAbs) (by omega))

theorem Operand.IsWritable.exists_shown {operand : Operand} (h : operand.IsWritable) :
    ∃ text, operand.shown = .ok text := by
  cases operand with
  | immediate value =>
    simp only [shown, Numeral.written_of_isWritable h]
    exact ⟨_, rfl⟩
  | register slot => exact ⟨_, rfl⟩
  | foreign text => exact absurd h id

-- What can be written can be shown in a trace.
theorem Instruction.IsWritable.exists_shown {instruction : Instruction}
    (h : instruction.IsWritable) : ∃ text, instruction.shown = .ok text := by
  cases instruction with
  | unary op operand =>
    obtain ⟨text, htext⟩ := Operand.IsWritable.exists_shown h
    simp only [shown, htext]
    exact ⟨_, rfl⟩
  | binary op source destination =>
    obtain ⟨first, hfirst⟩ := Operand.IsWritable.exists_shown h.1
    obtain ⟨second, hsecond⟩ := Operand.IsWritable.exists_shown h.2
    simp only [shown, hfirst, hsecond]
    exact ⟨_, rfl⟩
  | foreign text => exact absurd h id
  | _ => exact ⟨_, rfl⟩

theorem Instruction.exists_mapM_shown {code : List Instruction}
    (h : ∀ instruction ∈ code, instruction.IsWritable) :
    ∃ texts, code.mapM Instruction.shown = .ok texts := by
  induction code with
  | nil => exact ⟨[], rfl⟩
  | cons instruction rest ih =>
    obtain ⟨text, htext⟩ := (h instruction (by simp)).exists_shown
    obtain ⟨texts, htexts⟩ := ih fun other hmem => h other (by simp [hmem])
    refine ⟨text :: texts, ?_⟩
    rw [List.mapM_cons, htext, htexts]
    rfl

-- The line that reports an instruction by its text.
def emittedLine (text : String) : String := "emit: " ++ text

namespace Generator

theorem run_emit {instruction : Instruction} {text : String} (h : instruction.shown = .ok text)
    (code : List Instruction) (log : Log) :
    (emit instruction).run.run ⟨code, log⟩ =
      (.ok (), ⟨instruction :: code, log.after [emittedLine text]⟩) := by
  cases log with
  | silent => rfl
  | recording lines =>
    unfold emit
    simp only [h]
    rfl

-- Instructions that can be shown are generated, and each is reported.
theorem run_emitAll {instructions : List Instruction} {texts : List String}
    (h : instructions.mapM Instruction.shown = .ok texts) (code : List Instruction) (log : Log) :
    (emitAll instructions).run.run ⟨code, log⟩ =
      (.ok (), ⟨instructions.reverse ++ code, log.after (texts.map emittedLine)⟩) := by
  induction instructions generalizing texts code log with
  | nil =>
    cases h
    cases log <;> rfl
  | cons instruction rest ih =>
    rw [List.mapM_cons] at h
    cases hfirst : instruction.shown with
    | error fault =>
      rw [hfirst] at h
      cases h
    | ok text =>
      rw [hfirst] at h
      cases hrest : rest.mapM Instruction.shown with
      | error fault =>
        rw [hrest] at h
        cases h
      | ok others =>
        rw [hrest] at h
        cases h
        rw [emitAll_cons, run_bind_ok (run_emit hfirst code log), ih hrest, Log.after_after,
          List.reverse_cons, List.append_assoc]
        rfl

end Generator

end TinyC
