import OptionShell.Builtin.General
import OptionShell.Proofs.Interpreter.QuotedLine
import OptionShell.Proofs.Line.DoubleQuotes

/-!
# A reference in double quotes

References are replaced before words are read, so the value of a variable is read again between the double quotes. It
reaches a command as one word exactly if nothing in it means something else there.
-/
namespace OptionShell

open Line

namespace Interpreter

variable {α : Type} {name value : String} {s : Session α}

theorem keptInDoubleQuotes_name (hChars : name.toList.all isNameChar = true) :
    KeptInDoubleQuotes ('$' :: name.toList) := by
  have hNone : ∀ c, isNameChar c = false → c ≠ '$' → c ∉ '$' :: name.toList := by
    intro c hc hDollar hMem
    obtain rfl | hMem := List.mem_cons.mp hMem
    · exact hDollar rfl
    · rw [List.all_eq_true.mp hChars c hMem] at hc
      cases hc
  have hBackslash := hNone '\\' (by decide) (by decide)
  exact ⟨hNone '"' (by decide) (by decide), fun hInfix => hBackslash (hInfix.subset List.mem_cons_self),
    fun hInfix => hBackslash (hInfix.subset List.mem_cons_self), fun hLast => hBackslash (List.mem_of_getLast? hLast)⟩

theorem toList_reference (name : String) :
    ("echo \"$" ++ name ++ "\"").toList = "echo".toList ++ ' ' :: doubleQuoted ('$' :: name.toList) := by
  simp [doubleQuoted]

theorem segments_reference (hChars : name.toList.all isNameChar = true) :
    segments (Text.trim ("echo \"$" ++ name ++ "\"").toList) =
      .ok [⟨.always, ("echo \"$" ++ name ++ "\"").toList⟩] := by
  have hCommand : ∀ c ∈ "echo".toList, isOrdinary c = true := List.all_eq_true.mp (by decide)
  have hSpells := (spells_ordinary (by decide) hCommand).append (spells_doubleQuoted (keptInDoubleQuotes_name hChars))
  rw [← lexemes_blank, ← lexemes_ordinary hCommand, ← toList_reference] at hSpells
  have hUndivided := cut_eq_iff.mp (cut_of_uncut hSpells.uncut)
  have hFirst : ∃ c, ("echo \"$" ++ name ++ "\"").toList.head? = some c ∧ Text.isBlank c = false :=
    ⟨'e', by simp, by decide⟩
  have hLast : ∃ c, ("echo \"$" ++ name ++ "\"").toList.getLast? = some c ∧ Text.isBlank c = false :=
    ⟨'"', by rw [String.toList_append, List.getLast?_append]; rfl, by decide⟩
  have hTrim := Text.trim_append hFirst hLast []
  rw [List.append_nil, Text.trimEnd, List.reverse_nil, List.dropWhile_nil, List.reverse_nil, List.append_nil] at hTrim
  have hSegments := segments_trim hUndivided (by rw [hTrim]; simp)
  rwa [hTrim] at hSegments ⊢

theorem expandWords_reference (hName : name ≠ "") (hChars : name.toList.all isNameChar = true)
    (hValue : s.vars.value? name = some value) :
    expandWords s ("echo \"$" ++ name ++ "\"").toList =
      (words (doubleQuoted value.toList)).map fun ws => "echo" :: ws.map String.ofList := by
  have hResolve : resolve s (.variableNamed name.toList) = .ok value.toList := by
    rw [resolve, String.ofList_toList, hValue]
  have hCommand : ∀ c ∈ "echo".toList, isOrdinary c = true := List.all_eq_true.mp (by decide)
  have hExpand := expand_doubleQuoted hCommand (by simpa using hName) (List.all_eq_true.mp hChars) hResolve
  rw [← toList_reference] at hExpand
  change (expand (resolve s) _).bind _ = _
  rw [hExpand]
  change (words _).bind _ = _
  rw [words_append_doubleQuoted (by decide) hCommand]
  cases words (doubleQuoted value.toList) <;> rfl

/-- A value is shown as it is exactly if double quotes keep it, and then it is the only word after the name. -/
theorem echo_quotedReference_iff (interp : Interpreter α) (depth : Nat) (hName : name ≠ "")
    (hChars : name.toList.all isNameChar = true) (hValue : s.vars.value? name = some value)
    (hFound : interp.findCommand? s.loaded "echo" = some Builtin.echo) (hExec : s.options.enabled "noexec" = false) :
    ((∃ after, (interp.execute (depth + 1) ("echo \"$" ++ name ++ "\"")).run s = some (.ok (.text value), after)) ↔
        KeptInDoubleQuotes value.toList) ∧
      (KeptInDoubleQuotes value.toList →
        expandWords s ("echo \"$" ++ name ++ "\"").toList = .ok ["echo", value]) := by
  have hSegments := segments_reference hChars
  have hWords := expandWords_reference hName hChars hValue
  have hKept : KeptInDoubleQuotes value.toList → words (doubleQuoted value.toList) = .ok [value.toList] := by
    intro h
    have hSpells := spells_doubleQuoted h
    rw [words_eq, openAfter, hSpells.closed, hSpells.words]
  cases hRead : words (doubleQuoted value.toList) with
  | error error =>
    rw [hRead] at hWords hKept
    have hLost : ¬KeptInDoubleQuotes value.toList := fun h => by cases hKept h
    refine ⟨iff_of_false ?_ hLost, fun h => absurd h hLost⟩
    rintro ⟨after, hRun⟩
    rw [run_execute_of_error interp depth hSegments hWords] at hRun
    cases hRun
  | ok ws =>
    have hClosed := (exists_words_iff _).mp ⟨ws, hRead⟩
    rw [hRead] at hWords hKept
    have hArgs : KeptInDoubleQuotes value.toList → ws.map String.ofList = [value] := by
      intro h
      rw [Except.ok.inj (hKept h), List.map_singleton, String.ofList_toList]
    obtain ⟨ended, hRun⟩ : ∃ ended, (interp.execute (depth + 1) ("echo \"$" ++ name ++ "\"")).run s =
        some (.ok (.text (" ".intercalate (ws.map String.ofList))), ended) := by
      rw [run_execute_of_words interp depth hSegments hWords,
        run_runWords_of_found interp _ _ (by decide) (by decide) hFound (.inl hExec)]
      exact ⟨_, rfl⟩
    constructor
    · rw [hRun]
      constructor
      · rintro ⟨after, hShown⟩
        rw [words_eq, hClosed] at hRead
        apply keptInDoubleQuotes_of_intercalate hClosed
        rw [String.ofList_toList, Except.ok.inj hRead]
        exact Output.text.inj (Except.ok.inj (Prod.ext_iff.mp (Option.some.inj hShown)).1)
      · intro h
        rw [hArgs h, String.intercalate_singleton]
        exact ⟨_, rfl⟩
    · intro h
      rw [hWords]
      exact congrArg (fun args => Except.ok ("echo" :: args)) (hArgs h)

/-- A value with connectives, blanks, a reference, single quotes and a backslash before a letter. -/
theorem echo_quotedReference_of_special_value :
    let interp : Interpreter Unit := { commands := CommandTable.add Builtin.echo .empty }
    let value := " a; b && $x  'c' \\n "
    let s : Session Unit := { options := { host := { vars := Variables.bind "X" value .empty, user := () } } }
    s.vars.value? "X" = some value ∧ KeptInDoubleQuotes value.toList ∧
      expandWords s "echo \"$X\"".toList = .ok ["echo", value] ∧
      ∃ after, (interp.execute 1 "echo \"$X\"").run s = some (.ok (.text value), after) := by
  intro interp value s
  have hValue : s.vars.value? "X" = some value := by decide +kernel
  have hKept : KeptInDoubleQuotes value.toList :=
    ⟨by decide +kernel, by decide +kernel, by decide +kernel, by decide +kernel⟩
  have hLine : "echo \"$" ++ "X" ++ "\"" = "echo \"$X\"" := rfl
  obtain ⟨hShown, hWords⟩ := echo_quotedReference_iff interp 0 (by decide) (by decide) hValue rfl (by decide +kernel)
  rw [hLine] at hShown hWords
  exact ⟨hValue, hKept, hWords hKept, hShown.mpr hKept⟩

/-- The double quotes of the value are taken for those that close and open the quotes around the reference. -/
theorem echo_loses_quotes_of_value :
    let interp : Interpreter Unit := { commands := CommandTable.add Builtin.echo .empty }
    let s : Session Unit :=
      { options := { host := { vars := Variables.bind "X" "say \"hi\"" .empty, user := () } } }
    s.vars.value? "X" = some "say \"hi\"" ∧ s.options.enabled "noexec" = false ∧
      (interp.execute 1 "echo \"$X\"").run s = some (.ok (.text "say hi"), s) := by
  intro interp s
  have hValue : s.vars.value? "X" = some "say \"hi\"" := by decide +kernel
  have hRead : words (doubleQuoted "say \"hi\"".toList) = .ok ["say hi".toList] := by decide +kernel
  have hSegments : segments (Text.trim "echo \"$X\"".toList) = .ok [⟨.always, "echo \"$X\"".toList⟩] := rfl
  have hWords : expandWords s "echo \"$X\"".toList = .ok ["echo", "say hi"] := by
    refine (expandWords_reference (by decide) (by decide) hValue).trans ?_
    rw [hRead]
    rfl
  exact ⟨hValue, by decide +kernel, run_execute_of_words interp 0 hSegments hWords⟩

end Interpreter

end OptionShell
