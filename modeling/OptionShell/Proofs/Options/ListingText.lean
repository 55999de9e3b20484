import Mathlib.Data.List.Basic
import OptionShell.Builtin.Set
import OptionShell.Proofs.Line.Quoting

/-!
# Texts of listings

The commands of a listing are its lines: joined by line feeds, they are read back as they are. The command that brings
an option into its state is written in words of ordinary characters, if its name is one.
-/
namespace OptionShell

/-! ## Lines of joined texts -/

namespace Text

section Cutting

variable {α : Type} {p : α → Bool} {front : List α}

/-- A piece ends at the first element that the test accepts. -/
theorem cutAfter_append_cons (hFront : ∀ c ∈ front, p c = false) {c : α} (hc : p c = true) (rest : List α) :
    cutAfter p (front ++ c :: rest) = (front ++ [c]) :: cutAfter p rest := by
  induction front with
  | nil => rw [List.nil_append, cutAfter, if_pos hc, List.nil_append]
  | cons d front ih =>
    obtain ⟨hd, hFront⟩ := List.forall_mem_cons.mp hFront
    rw [List.cons_append, cutAfter, if_neg (by rw [hd]; decide), ih hFront]
    rfl

theorem cutAfter_of_forall (hFront : ∀ c ∈ front, p c = false) (hNonempty : front ≠ []) :
    cutAfter p front = [front] := by
  induction front with
  | nil => exact absurd rfl hNonempty
  | cons d front ih =>
    obtain ⟨hd, hFront⟩ := List.forall_mem_cons.mp hFront
    rw [cutAfter, if_neg (by rw [hd]; decide)]
    cases front with
    | nil => rfl
    | cons e front => rw [ih hFront (List.cons_ne_nil e front)]

end Cutting

variable {line : List Char}

theorem dropTerminator_of_notMem (h : '\n' ∉ line) : dropTerminator line = line := by
  rw [dropTerminator]
  split
  · rename_i body hReverse
    exact absurd (List.mem_reverse.mp (hReverse ▸ List.mem_cons_self)) h
  · rename_i body hNot hReverse
    exact absurd (List.mem_reverse.mp (hReverse ▸ List.mem_cons_self)) h
  · rfl

theorem dropTerminator_concat (h : '\r' ∉ line) : dropTerminator (line ++ ['\n']) = line := by
  rw [dropTerminator, List.reverse_append]
  split
  · rename_i body hReverse
    have hLine : line.reverse = '\r' :: body := (List.cons.inj hReverse).2
    exact absurd (List.mem_reverse.mp (hLine ▸ List.mem_cons_self)) h
  · rename_i body hNot hReverse
    rw [← (List.cons.inj hReverse).2]
    exact List.reverse_reverse line
  · rename_i hNot hOther
    exact absurd rfl (hOther line.reverse)

/-- Joined texts are read back as lines, if none of them is empty or holds the end of a line. -/
theorem lines_joinLines {texts : List String}
    (h : ∀ text ∈ texts, text ≠ "" ∧ '\n' ∉ text.toList ∧ '\r' ∉ text.toList) :
    (lines (joinLines texts).toList).map String.ofList = texts := by
  induction texts with
  | nil => rfl
  | cons text rest ih =>
    obtain ⟨⟨hNonempty, hFeed, hReturn⟩, hRest⟩ := List.forall_mem_cons.mp h
    have hUncut : ∀ c ∈ text.toList, decide (c = '\n') = false := by
      intro c hc
      exact decide_eq_false fun hSame => hFeed (hSame ▸ hc)
    cases rest with
    | nil =>
      rw [joinLines, String.intercalate_singleton, lines,
        cutAfter_of_forall hUncut fun hNil => hNonempty (String.toList_eq_nil_iff.mp hNil), List.map_singleton,
        List.map_singleton, dropTerminator_of_notMem hFeed, String.ofList_toList]
    | cons second rest =>
      have hText : (joinLines (text :: second :: rest)).toList =
          text.toList ++ '\n' :: (joinLines (second :: rest)).toList := by
        rw [joinLines, String.intercalate_cons_cons, String.toList_append, String.toList_append, List.append_assoc]
        rfl
      rw [hText, lines, cutAfter_append_cons hUncut rfl, List.map_cons, List.map_cons, ← lines, ih hRest,
        dropTerminator_concat hReturn, String.ofList_toList]

end Text

/-! ## Commands that bring a state about -/

open Line

variable {σ : Type} {d : Definition σ} {name : String}

/-- A name that a command line takes as one word. -/
structure WordName (name : String) : Prop where
  nonempty : name ≠ ""
  chars : name.toList.all isNameChar = true

instance (name : String) : Decidable (WordName name) :=
  decidable_of_iff (name ≠ "" ∧ name.toList.all isNameChar = true) ⟨fun h => ⟨h.1, h.2⟩, fun h => ⟨h.nonempty, h.chars⟩⟩

namespace WordName

theorem writes (h : WordName name) : Writes name.toList [name.toList] := by
  refine writes_ordinary (fun hNil => h.nonempty (String.toList_eq_nil_iff.mp hNil)) (List.all_eq_true.mpr ?_)
  exact fun c hc => isOrdinary_of_isNameChar (List.all_eq_true.mp h.chars c hc)

theorem unsigned (h : WordName name) : Builtin.startsWithSign name = false := by
  rw [Builtin.startsWithSign]
  split
  · rename_i c rest hText
    have hc := List.all_eq_true.mp h.chars c (hText ▸ List.mem_cons_self)
    rw [Flag.ofSign?]
    · rfl
    · rintro rfl
      cases hc
    · rintro rfl
      cases hc
  · rfl

end WordName

namespace Definition

theorem toList_render_setCommand (hName : d.name? = some name) (on : Bool) :
    (d.render .setCommand on).toList = "set".toList ++ ' ' :: ([Flag.sign on, 'o'] ++ ' ' :: name.toList) := by
  rw [render, hName]
  change ("set " ++ String.singleton (Flag.sign on) ++ "o " ++ name).toList = _
  rw [String.toList_append, String.toList_append, String.toList_append, String.toList_singleton, List.append_assoc,
    List.append_assoc]
  rfl

theorem writes_render_setCommand (hName : d.name? = some name) (hWord : WordName name) (on : Bool) :
    Writes (d.render .setCommand on).toList ["set".toList, [Flag.sign on, 'o'], name.toList] := by
  have hSet : Writes "set".toList ["set".toList] := writes_ordinary (by decide) (by decide)
  have hFlag : Writes [Flag.sign on, 'o'] [[Flag.sign on, 'o']] := by
    cases on <;> exact writes_ordinary (by decide) (by decide)
  rw [toList_render_setCommand hName]
  exact hSet.append (hFlag.append hWord.writes)

/-- The command is a line without an end in it. -/
theorem notMem_render_setCommand (hName : d.name? = some name) (hWord : WordName name) (on : Bool) {c : Char}
    (hc : c ∈ ['\n', '\r']) : c ∉ (d.render .setCommand on).toList := by
  have hEnds : ['\n', '\r'].all (fun c => !(['s', 'e', 't', ' ', Flag.sign on, 'o', ' '].contains c || isNameChar c)) =
      true := by cases on <;> decide
  have hOther := List.all_eq_true.mp hEnds c hc
  rw [Bool.not_eq_true', Bool.or_eq_false_iff] at hOther
  intro hMem
  rw [toList_render_setCommand hName] at hMem
  change c ∈ ['s', 'e', 't', ' ', Flag.sign on, 'o', ' '] ++ name.toList at hMem
  obtain hFixed | hOwn := List.mem_append.mp hMem
  · rw [List.contains_iff_mem.mpr hFixed] at hOther
    cases hOther.1
  · rw [List.all_eq_true.mp hWord.chars c hOwn] at hOther
    cases hOther.2

end Definition

theorem dropLineFeeds_of_notMem {text : String} (h : '\n' ∉ text.toList) : dropLineFeeds text = text := by
  rw [dropLineFeeds]
  cases hReverse : text.toList.reverse with
  | nil => rw [List.dropWhile_nil, ← hReverse, List.reverse_reverse, String.ofList_toList]
  | cons c rest =>
    have hc : c ≠ '\n' := by
      rintro rfl
      exact h (List.mem_reverse.mp (hReverse ▸ List.mem_cons_self))
    rw [List.dropWhile_cons_of_neg (by simpa using hc), ← hReverse, List.reverse_reverse, String.ofList_toList]

namespace Options

theorem isMasked_zero (value? : Option Int32) : isMasked 0 value? = false := by
  cases value? with
  | none => rfl
  | some value => simp [isMasked]

/-- The listing of commands has the command of each option that it can show as a line. -/
theorem lines_listing_setCommand {s : Options σ} {why : Access}
    (hNames : ∀ d ∈ s.registry.entries, ∀ name ∈ d.name?, WordName name) :
    (Text.lines (s.listing why 0 .setCommand).toList).map String.ofList =
      (s.listable why .setCommand).map fun d => d.render .setCommand (s.isOn d why) := by
  have hNamed : ∀ d ∈ s.listable why .setCommand, ∃ name, d.name? = some name ∧ WordName name := by
    intro d hd
    obtain ⟨hVisible, hKey⟩ := List.mem_filter.mp hd
    obtain ⟨name, hName⟩ := Option.isSome_iff_exists.mp hKey
    exact ⟨name, hName, hNames d (List.mem_filter.mp hVisible).1 name hName⟩
  have hLines : ((s.listable why .setCommand).filterMap fun d => s.displayUnless d why 0 .setCommand) =
      (s.listable why .setCommand).map fun d => d.render .setCommand (s.isOn d why) := by
    rw [← List.filterMap_eq_map]
    refine List.filterMap_congr fun d hd => ?_
    obtain ⟨name, hName, hWord⟩ := hNamed d hd
    rw [displayUnless, isMasked_zero, if_neg (by decide), display,
      dropLineFeeds_of_notMem (Definition.notMem_render_setCommand hName hWord _ (by decide))]
    rfl
  rw [listing, hLines]
  apply Text.lines_joinLines
  intro text hText
  obtain ⟨d, hd, rfl⟩ := List.mem_map.mp hText
  obtain ⟨name, hName, hWord⟩ := hNamed d hd
  refine ⟨fun hEmpty => ?_, Definition.notMem_render_setCommand hName hWord _ (by decide),
    Definition.notMem_render_setCommand hName hWord _ (by decide)⟩
  have hNil := congrArg String.toList hEmpty
  rw [Definition.toList_render_setCommand hName] at hNil
  cases hNil

end Options

end OptionShell
