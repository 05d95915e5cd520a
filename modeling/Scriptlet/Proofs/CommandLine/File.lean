/-
  The command on a file: what it writes, and the code it ends with, for every
  limit on diagnostics (`commandLine_file`).
-/
import Scriptlet.Proofs.CommandLine.Process

namespace Scriptlet

variable {limit : ℕ} {file source : String}

/-! ## Limits -/

namespace Options

theorem toList_toString (n : ℕ) : (toString n).toList = Nat.toDigits 10 n := Nat.toList_repr

theorem isDigit_of_mem_toDigits (n : ℕ) : ∀ c ∈ Nat.toDigits 10 n, c.isDigit = true :=
  fun _ hc => Nat.isDigit_of_mem_toDigits (by decide) (by decide) hc

/-- A number is read back as it is written. -/
theorem natural_toString (h : limit ≤ largestLimit) :
    Numeral.natural largestLimit (toString limit).toList = .ok limit := by
  have hall := isDigit_of_mem_toDigits limit
  rw [toList_toString, Numeral.natural_of_digits Nat.toDigits_ne_nil hall,
    Numeral.digits_eq (Nat.zero_le _) hall, Nat.ofDigitChars_ten_toDigits, if_pos h]

namespace Draft

theorem looksLikeOption_toString (n : ℕ) : looksLikeOption (toString n) = false := by
  unfold looksLikeOption
  split
  · next hdash =>
    have hmem : '-' ∈ Nat.toDigits 10 n := by
      rw [← toList_toString, hdash]
      exact List.mem_cons_self
    exact absurd (isDigit_of_mem_toDigits n _ hmem) (by decide)
  · rfl

theorem toList_ne_of_not_option (hfile : looksLikeOption file = false) (c : Char)
    (cs : List Char) : file.toList ≠ '-' :: c :: cs := by
  intro hdash
  rw [looksLikeOption, hdash] at hfile
  cases hfile

/-- What does not look like an option names a file. -/
theorem takeAll_file (hfile : looksLikeOption file = false) (rest : List String) (d : Draft) :
    takeAll (file :: rest) d = d.setFile file >>= takeAll rest := by
  have hdash := toList_ne_of_not_option hfile
  have hequals : ¬limitEquals.isPrefixOf file.toList = true := by
    rw [List.isPrefixOf_iff_prefix]
    rintro ⟨value, hvalue⟩
    exact hdash _ _ hvalue.symm
  rw [takeAll, if_neg hequals]
  · split
    · next h => exact absurd h (hdash _ _)
    · next h => exact absurd h (hdash _ _)
    · rfl
  case x_6 =>
    rintro value _ rfl
    exact absurd hfile (by decide)
  all_goals
    rintro rfl
    exact absurd hfile (by decide)

end Draft

/-- **Every limit of 64 bits can be asked for**, and every file that does not look like an option
    named. -/
theorem ofArguments_limit (h : limit ≤ largestLimit) (hfile : Draft.looksLikeOption file = false) :
    ofArguments ["--max-errors", toString limit, file] = .ok ⟨false, false, limit, some file⟩ := by
  have hvalue : ¬Draft.looksLikeOption (toString limit) = true := by
    rw [Draft.looksLikeOption_toString]
    decide
  have htake : Draft.takeAll ["--max-errors", toString limit, file] ⟨false, false, none, none⟩ =
      .ok ⟨false, false, some (toString limit), some file⟩ := by
    rw [Draft.takeAll, if_neg hvalue]
    exact Draft.takeAll_file hfile [] _
  have hlimit : Draft.maxErrors ⟨false, false, some (toString limit), some file⟩ = .ok limit := by
    simp only [Draft.maxErrors, natural_toString h]
  simp only [ofArguments, htake, hlimit, bind, Except.bind]
  rfl

end Options

/-- The bytes of a text are read as the text. -/
theorem fromUTF8?_toUTF8 (s : String) : String.fromUTF8? s.toUTF8 = some s := by
  rw [String.fromUTF8?, String.toUTF8_eq_toByteArray, dif_pos s.isValidUTF8]
  rfl

/-! ## Files -/

theorem Options.runFile_toUTF8 (o : Options) (source file : String) :
    o.runFile file (.ok source.toUTF8) = o.process source file := by
  rw [runFile, fromUTF8?_toUTF8]

/-- **The command on a file**: the tree of a text without diagnostics, or the first diagnostics and
    the number of the others, and never both. -/
theorem commandLine_file {arguments : List String} {read : String → Except FileError ByteArray}
    (ho : Options.ofArguments arguments = .ok ⟨false, false, limit, some file⟩)
    (hread : read file = .ok source.toUTF8) (h : source.length < 2 ^ 32)
    (hlines : ∀ n, (Text.nthLine n source.toList).length ≤ 65534) (input : ByteArray) :
    let out := commandLine arguments read input
    let found := (parse source).2
    out.status.code = (if found.length = 0 then 0 else 1) ∧
    (found.length = 0 → out.stdout = (parse source).1.text ++ "\n" ∧ out.stderr = "") ∧
    (found.length ≠ 0 → out.stdout = "" ∧
      ∃ texts, Reported source file (found.take (min limit found.length)) texts ∧
        out.stderr = String.join texts ++
          if found.length > limit then
            "... and " ++ toString (found.length - limit) ++ " more error(s)\n"
          else "") := by
  intro out found
  have hout : out = Options.process ⟨false, false, limit, some file⟩ source file := by
    simp only [out, commandLine, ho, hread, Options.runFile_toUTF8]
  by_cases hnone : found = []
  · rw [hout, Options.process_of_no_errors rfl hnone]
    simp [hnone, Status.code]
  · have hlength : found.length ≠ 0 := by simpa using hnone
    obtain ⟨texts, hshown⟩ := exists_reported
      (Options.reportable ⟨false, false, limit, some file⟩ h hlines file rfl)
    rw [hout, Options.process_of_errors rfl hnone hshown, if_neg hlength]
    refine ⟨rfl, fun hzero => absurd hzero hlength, fun _ => ⟨rfl, texts, ?_, rfl⟩⟩
    rwa [← List.take_eq_take_min]

/-- Of three diagnostics two are left over. -/
theorem commandLine_file_rest :
    let source := "x +;\nvar 1;\r\n\tf(@"
    let folder : Folder := [("main.lang", source.toUTF8)]
    let arguments := ["--max-errors", toString 1, "main.lang"]
    let out := commandLine arguments folder.read ByteArray.empty
    Options.ofArguments arguments = .ok ⟨false, false, 1, some "main.lang"⟩ ∧
    folder.read "main.lang" = .ok source.toUTF8 ∧ source.length < 2 ^ 32 ∧
    (∀ n, (Text.nthLine n source.toList).length ≤ 65534) ∧ (parse source).2.length = 3 ∧
    out.status.code = 1 ∧ out.stdout = "" ∧
    ∃ texts, Reported source "main.lang" ((parse source).2.take 1) texts ∧
      out.stderr = String.join texts ++ "... and 2 more error(s)\n" := by
  intro source folder arguments out
  have ho : Options.ofArguments arguments = .ok ⟨false, false, 1, some "main.lang"⟩ :=
    Options.ofArguments_limit (by decide) (by decide)
  have hread : folder.read "main.lang" = .ok source.toUTF8 :=
    Folder.read_name (by decide) (by decide) (by decide) (by decide) (by decide) rfl
  have h : source.length < 2 ^ 32 := by decide
  have hlines : ∀ n, (Text.nthLine n source.toList).length ≤ 65534 :=
    fun n => (Text.length_nthLine_le n _).trans (by decide)
  have hfound : (parse source).2.length = 3 := by decide +kernel
  obtain ⟨hcode, -, herrors⟩ := commandLine_file ho hread h hlines ByteArray.empty
  rw [hfound] at hcode herrors
  exact ⟨ho, hread, h, hlines, hfound, hcode, herrors (by decide)⟩

end Scriptlet
