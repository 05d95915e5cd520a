/-
  What the command writes about one text: its tree if there are no
  diagnostics, else their reports.
-/
import Scriptlet.CommandLine
import Scriptlet.Proofs.Diagnostics.Reported

namespace Scriptlet

/-! ## Reports -/

/-- The diagnostics have these reports, in order. -/
def Reported (source file : String) (ds : List Diagnostic) (texts : List String) : Prop :=
  List.Forall₂ (fun d text => d.report source file = .ok text) ds texts

variable {source file : String} {ds : List Diagnostic} {texts : List String}

theorem exists_reported (h : ∀ d ∈ ds, ∃ text, d.report source file = .ok text) :
    ∃ texts, Reported source file ds texts := by
  induction ds with
  | nil => exact ⟨[], .nil⟩
  | cons d ds ih =>
    obtain ⟨⟨text, htext⟩, hds⟩ := List.forall_mem_cons.1 h
    obtain ⟨texts, htexts⟩ := ih hds
    exact ⟨text :: texts, .cons htext htexts⟩

/-- The reports are written one after another. -/
theorem reports_eq (h : Reported source file ds texts) :
    reports source file ds = (.failure, String.join texts) := by
  induction h with
  | nil => rfl
  | cons htext _ ih =>
    rw [reports, htext]
    dsimp only
    rw [ih, String.join_cons]

/-- A diagnostic that has no report ends the list. -/
theorem reports_abort (h : ∃ d ∈ ds, ∀ text, d.report source file ≠ .ok text) :
    (reports source file ds).1 = .abort := by
  induction ds with
  | nil => simp at h
  | cons d ds ih =>
    rw [reports]
    cases hd : d.report source file with
    | error e => rfl
    | ok text =>
      refine ih ?_
      obtain ⟨e, he, hnone⟩ := h
      rcases List.mem_cons.1 he with rfl | he
      · exact absurd hd (hnone text)
      · exact ⟨e, he, hnone⟩

namespace Options

variable {o : Options}

/-- The diagnostics of the text that are to be shown all have reports. -/
def Reportable (o : Options) (source file : String) : Prop :=
  o.tokens = false →
    ∀ d ∈ (parse source).2.take o.maxErrors, ∃ text, d.report source file = .ok text

theorem reportable (o : Options) (h : source.length < 2 ^ 32)
    (hlines : ∀ n, (Text.nthLine n source.toList).length ≤ 65534) (file : String) :
    o.Reportable source file :=
  fun _ _ hd => exists_report_of_mem_parse h hlines (List.mem_of_mem_take hd) file

/-- Of a text without diagnostics the tree is written. -/
theorem process_of_no_errors (htokens : o.tokens = false) (h : (parse source).2 = []) :
    o.process source file =
      ⟨.success, (if o.structured then (parse source).1.dump.indented else (parse source).1.text) ++
        "\n", ""⟩ := by
  simp only [process, htokens, h, List.isEmpty_nil, if_true, Bool.false_eq_true, if_false]

/-- Of a text with diagnostics no tree is written, whether these have reports or not. -/
theorem process_of_reports {shown : Status × String} (htokens : o.tokens = false)
    (h : (parse source).2 ≠ [])
    (hshown : reports source file ((parse source).2.take o.maxErrors) = shown) :
    o.process source file =
      if shown.1 = .abort then ⟨.abort, "", shown.2⟩
      else ⟨.failure, "", shown.2 ++ o.remainder (parse source).2.length⟩ := by
  have hempty : ¬(parse source).2.isEmpty = true := by rwa [List.isEmpty_iff]
  simp only [process, htokens, if_neg hempty, hshown, Bool.false_eq_true, if_false]
  obtain ⟨status, text⟩ := shown
  cases status <;> rfl

/-- Of a text with diagnostics nothing is written but these. -/
theorem process_of_errors (htokens : o.tokens = false) (h : (parse source).2 ≠ [])
    (hshown : Reported source file ((parse source).2.take o.maxErrors) texts) :
    o.process source file =
      ⟨.failure, "", String.join texts ++ o.remainder (parse source).2.length⟩ :=
  process_of_reports htokens h (reports_eq hshown)

/-- **A command is broken off exactly by a diagnostic that is to be shown and has no report.** -/
theorem process_abort_iff :
    (o.process source file).status = .abort ↔ ¬o.Reportable source file := by
  by_cases htokens : o.tokens = true
  · simp [process, Reportable, htokens]
  rw [Bool.not_eq_true] at htokens
  by_cases hnone : (parse source).2 = []
  · rw [process_of_no_errors htokens hnone]
    simp [Reportable, hnone]
  by_cases hall : o.Reportable source file
  · obtain ⟨texts, hshown⟩ := exists_reported (hall htokens)
    rw [process_of_errors htokens hnone hshown]
    simp [hall]
  · have habort : (reports source file ((parse source).2.take o.maxErrors)).1 = .abort := by
      refine reports_abort ?_
      simp only [Reportable, not_forall, not_exists] at hall
      obtain ⟨-, d, hd, hnoReport⟩ := hall
      exact ⟨d, hd, hnoReport⟩
    rw [process_of_reports htokens hnone rfl, if_pos habort]
    exact iff_of_true rfl hall

end Options

end Scriptlet
