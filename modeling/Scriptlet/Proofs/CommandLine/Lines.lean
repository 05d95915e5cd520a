/-
  The command on lines of input: each is answered by itself
  (`commandLine_lines`).
-/
import Scriptlet.Proofs.CommandLine.Process

namespace Scriptlet

/-! ## Lines of bytes -/

/-- The last byte, if there is one, ends a line. -/
def Ended (bytes : List UInt8) : Prop :=
  ∀ byte ∈ bytes.getLast?, byte = lineFeed

instance (bytes : List UInt8) : Decidable (Ended bytes) :=
  inferInstanceAs (Decidable (∀ byte ∈ bytes.getLast?, byte = lineFeed))

theorem byteLines_nil : byteLines [] = [] := by
  rw [byteLines]
  rfl

/-- A line, and what comes after its end. -/
theorem byteLines_cons {line : List UInt8} (h : lineFeed ∉ line) (rest : List UInt8) :
    byteLines (line ++ lineFeed :: rest) = dropReturn line :: byteLines rest := by
  have hline : ∀ byte ∈ line, (decide (byte ≠ lineFeed)) = true := by
    intro byte hbyte
    rw [decide_eq_true_iff]
    rintro rfl
    exact h hbyte
  have hdrop : (line ++ lineFeed :: rest).dropWhile (· ≠ lineFeed) = lineFeed :: rest := by
    rw [List.dropWhile_append_of_pos hline]
    rfl
  have htake : (line ++ lineFeed :: rest).takeWhile (· ≠ lineFeed) = line := by
    rw [List.takeWhile_append_of_pos hline]
    simp
  rw [byteLines]
  split
  · next hcons =>
    obtain ⟨-, rfl⟩ := List.cons.inj (hdrop.symm.trans hcons)
    rw [htake]
  · next hnil => cases hdrop.symm.trans hnil

/-- Bytes with a line end behind are lines. -/
theorem Ended.cases {bytes : List UInt8} (h : Ended bytes) : bytes = [] ∨
    ∃ line rest, lineFeed ∉ line ∧ bytes = line ++ lineFeed :: rest ∧ Ended rest := by
  rcases hlast : bytes.getLast? with _ | byte
  · exact .inl (List.getLast?_eq_none_iff.1 hlast)
  · obtain rfl := h byte hlast
    obtain ⟨line, rest, rfl, hline⟩ := List.eq_append_cons_of_mem (List.mem_of_getLast? hlast)
    refine .inr ⟨line, rest, hline, rfl, fun byte hbyte => h byte ?_⟩
    rw [List.getLast?_append, List.getLast?_cons, hbyte]
    rfl

/-- **Lines before a line end and lines after it do not touch.** -/
theorem byteLines_append {as : List UInt8} (h : Ended as) (bs : List UInt8) :
    byteLines (as ++ bs) = byteLines as ++ byteLines bs := by
  induction hn : as.length using Nat.strongRecOn generalizing as with
  | ind n ih =>
    rcases h.cases with rfl | ⟨line, rest, hline, rfl, hrest⟩
    · rw [byteLines_nil]
      rfl
    · have hshort : rest.length < n := by
        rw [← hn, List.length_append, List.length_cons]
        omega
      rw [List.append_assoc, List.cons_append, byteLines_cons hline, byteLines_cons hline,
        ih _ hshort hrest rfl, List.cons_append]

theorem inputLines_append {a : ByteArray} (h : Ended a.data.toList) (b : ByteArray) :
    inputLines (a ++ b) = inputLines a ++ inputLines b := by
  simp only [inputLines, ByteArray.data_append, Array.toList_append, byteLines_append h,
    List.map_append]

namespace Options

variable {o : Options}

/-! ## Lines that do not end the command -/

/-- A line of text that asks for nothing but an answer does not end the command, if its
    diagnostics can be shown. -/
theorem ending_answer {line : String} (hexit : isExit line = false)
    (hreport : o.Reportable line shell) : (o.answer (some line)).ending = none := by
  have hstatus : ¬(o.process line shell).status = .abort := fun habort =>
    process_abort_iff.1 habort hreport
  simp only [answer, hexit, Bool.false_eq_true, if_false, if_neg hstatus]

/-- What is written on the output stream about lines that do not end the command. -/
def answered (o : Options) (lines : List (Option String)) : String :=
  String.join (lines.map fun line => prompt ++ (o.answer line).stdout)

/-- What is written on the error stream about them. -/
def complained (o : Options) (lines : List (Option String)) : String :=
  String.join (lines.map fun line => (o.answer line).stderr)

/-- **Lines that do not end the command are answered each by itself.** -/
theorem interact_append {as : List (Option String)}
    (h : ∀ line ∈ as, (o.answer line).ending = none) (bs : List (Option String)) :
    o.interact (as ++ bs) = ⟨(o.interact bs).status, o.answered as ++ (o.interact bs).stdout,
      o.complained as ++ (o.interact bs).stderr⟩ := by
  induction as with
  | nil => simp [answered, complained, String.join_nil]
  | cons line as ih =>
    obtain ⟨hline, has⟩ := List.forall_mem_cons.1 h
    rw [List.cons_append, interact, hline]
    dsimp only
    rw [ih has]
    simp only [answered, complained, List.map_cons, String.join_cons, String.append_assoc]

/-- Nothing comes after a line that asks for the end. -/
theorem interact_exit {line : String} (h : isExit line = true) (as bs : List (Option String)) :
    o.interact (as ++ some line :: bs) = o.interact (as ++ [some line]) := by
  induction as with
  | nil => simp [interact, answer, h]
  | cons a as ih =>
    rw [List.cons_append, List.cons_append, interact, interact]
    cases (o.answer a).ending with
    | some status => rfl
    | none => simp only [ih]

/-- Lines of text end the command with success, if the diagnostics of those before one that asks
    for the end can be shown. -/
theorem status_interact {lines : List String}
    (h : ∀ line ∈ lines.takeWhile (!isExit ·), o.Reportable line shell) :
    (o.interact (lines.map some)).status = .success := by
  induction lines with
  | nil => rfl
  | cons line lines ih =>
    rw [List.map_cons, interact]
    cases hexit : isExit line with
    | true => simp [answer, hexit]
    | false =>
      rw [List.takeWhile_cons_of_pos (by rw [hexit]; rfl), List.forall_mem_cons] at h
      rw [ending_answer hexit h.1]
      exact ih h.2

end Options

/-! ## Input -/

theorem commandLine_input {arguments : List String} {o : Options}
    {read : String → Except FileError ByteArray} {input : ByteArray}
    (ho : Options.ofArguments arguments = .ok o) (hfile : o.file = none) :
    commandLine arguments read input = o.interact (inputLines input) := by
  simp only [commandLine, ho, hfile]

/-- **The command treats its lines independently.** On lines `as` of text of which none asks for
    the end, with lines `bs` after them, it writes what it writes on `as`, the last prompt aside,
    and then what it writes on `bs`, and ends with success, unless a diagnostic that is to be shown
    has no report. And whatever comes after a line that asks for the end is left aside. -/
theorem commandLine_lines {arguments : List String} {o : Options} {a b : ByteArray}
    {as bs : List String} (read : String → Except FileError ByteArray)
    (ho : Options.ofArguments arguments = .ok o) (hfile : o.file = none)
    (ha : inputLines a = as.map some) (hb : inputLines b = bs.map some)
    (hended : Ended a.data.toList) (hexit : ∀ line ∈ as, Options.isExit line = false)
    (hreport : ∀ line ∈ as ++ bs.takeWhile (!Options.isExit ·), o.Reportable line Options.shell) :
    let on := commandLine arguments read
    (∃ written, (on a).stdout = written ++ Options.prompt ∧
      (on (a ++ b)).stdout = written ++ (on b).stdout) ∧
    (on (a ++ b)).stderr = (on a).stderr ++ (on b).stderr ∧
    (on (a ++ b)).status.code = 0 ∧
    ∀ before line after text, Ended before.data.toList → Ended line.data.toList →
      inputLines line = [some text] → Options.isExit text = true →
      on (before ++ line ++ after) = on (before ++ line) := by
  intro on
  have hon : ∀ input, on input = o.interact (inputLines input) :=
    fun _ => commandLine_input ho hfile
  have hlines : ∀ line ∈ as.map some, (o.answer line).ending = none := by
    intro line hline
    obtain ⟨line, hmem, rfl⟩ := List.mem_map.1 hline
    exact Options.ending_answer (hexit line hmem) (hreport line (List.mem_append_left _ hmem))
  have hlast : o.interact (as.map some) =
      ⟨.success, o.answered (as.map some) ++ Options.prompt, o.complained (as.map some)⟩ := by
    have hnil := Options.interact_append hlines []
    rwa [List.append_nil, Options.interact, String.append_empty] at hnil
  have hstatus : (o.interact (bs.map some)).status = .success :=
    Options.status_interact fun line hline => hreport line (List.mem_append_right _ hline)
  refine ⟨⟨o.answered (as.map some), ?_, ?_⟩, ?_, ?_, ?_⟩
  · rw [hon, ha, hlast]
  · rw [hon, hon, inputLines_append hended, ha, hb, Options.interact_append hlines]
  · rw [hon, hon, hon, inputLines_append hended, ha, hb, Options.interact_append hlines, hlast]
  · rw [hon, inputLines_append hended, ha, hb, Options.interact_append hlines, hstatus]
    rfl
  · intro before line after text hbefore hline htext hend
    rw [hon, hon, ByteArray.append_assoc, inputLines_append hbefore, inputLines_append hbefore,
      inputLines_append hline, htext, List.singleton_append, Options.interact_exit hend]

/-- Lines with diagnostics, one of them with more than are shown, around a line without any; and
    bytes that are no text behind a line that asks for the end. -/
theorem commandLine_lines_faults :
    let arguments := ["--max-errors", "1"]
    let a := "1 + ; 2 +\nvar x = 2\r\n".toUTF8
    let b := "(\n \texit\n)".toUTF8
    let on := commandLine arguments Folder.outside.read
    inputLines a = ["1 + ; 2 +", "var x = 2"].map some ∧
    inputLines b = ["(", " \texit", ")"].map some ∧ Ended a.data.toList ∧
    (∃ written, (on a).stdout = written ++ Options.prompt ∧
      (on (a ++ b)).stdout = written ++ (on b).stdout) ∧
    (on (a ++ b)).stderr = (on a).stderr ++ (on b).stderr ∧
    (on (a ++ b)).status.code = 0 ∧
    on (a ++ "exit\n".toUTF8 ++ ⟨#[255]⟩) = on (a ++ "exit\n".toUTF8) := by
  intro arguments a b on
  have ho : Options.ofArguments arguments = .ok ⟨false, false, 1, none⟩ := by decide
  have ha : inputLines a = ["1 + ; 2 +", "var x = 2"].map some := by decide +kernel
  have hb : inputLines b = ["(", " \texit", ")"].map some := by decide +kernel
  have hended : Ended a.data.toList := by decide +kernel
  have hshort : ∀ line ∈ ["1 + ; 2 +", "var x = 2"] ++
      ["(", " \texit", ")"].takeWhile (!Options.isExit ·), line.length ≤ 65534 := by
    decide +kernel
  have hreport : ∀ line ∈ ["1 + ; 2 +", "var x = 2"] ++
      ["(", " \texit", ")"].takeWhile (!Options.isExit ·),
      Options.Reportable ⟨false, false, 1, none⟩ line Options.shell := by
    intro line hline
    refine Options.reportable _ ?_ (fun n => ?_) _
    · exact (hshort line hline).trans_lt (by decide)
    · exact (Text.length_nthLine_le n _).trans (hshort line hline)
  obtain ⟨hstdout, hstderr, hcode, hend⟩ :=
    commandLine_lines Folder.outside.read ho rfl ha hb hended (by decide +kernel) hreport
  exact ⟨ha, hb, hended, hstdout, hstderr, hcode,
    hend a _ _ "exit" hended (by decide +kernel) (by decide +kernel) (by decide +kernel)⟩

end Scriptlet
