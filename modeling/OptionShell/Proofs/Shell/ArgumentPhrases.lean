import OptionShell.Shell.Arguments

/-!
# The grammar of arguments

Arguments are phrases of one or two words, up to the end or to the word `--`. A phrase mentions the options that it
sets: those of its letters or the one of its name. The arguments that are read without an error are exactly those that
are made of phrases, and the settings are the mentions in their order.
-/
namespace OptionShell

/-- Letters that make a cluster after the sign, and no word with a meaning of its own. -/
structure IsCluster (on : Bool) (letters : List Char) : Prop where
  nonempty : letters ≠ []
  unnamed : letters ≠ ['o'] ∧ letters ≠ ['O']
  plain : on = true → letters.head? ≠ some '-' ∧ letters ≠ ['l'] ∧ letters ≠ ['c']

/-- What one or two words of the arguments say. -/
inductive Phrase where
  | cluster (on : Bool) (letters : List Char) (h : IsCluster on letters)
  | setO (on : Bool) (name : String)
  | shopt (on : Bool) (name : String)
  | command (text : String)
  | noEnvironment
  | login (long : Bool)

namespace Phrase

def words : Phrase → List String
  | cluster on letters _ => [String.ofList (Flag.sign on :: letters)]
  | setO on name => [if on then "-o" else "+o", name]
  | shopt on name => [if on then "-O" else "+O", name]
  | command text => ["-c", text]
  | noEnvironment => ["--noenv"]
  | login long => [if long then "--login" else "-l"]

/-- The settings of the options that the phrase mentions. -/
def mentions : Phrase → List Setting
  | cluster on letters _ => letters.map fun c => .letter c on
  | setO on name => [.setO name on]
  | shopt on name => [.shopt name on]
  | command _ | noEnvironment | login _ => []

def addTo (arguments : Arguments) : Phrase → Arguments
  | cluster on letters _ => arguments.addCluster on letters
  | setO on name => arguments.addSetting (.setO name on)
  | shopt on name => arguments.addSetting (.shopt name on)
  | command text => { arguments with command? := some text }
  | noEnvironment => { arguments with ignoreEnvironment := true }
  | login _ => { arguments with login := true }

theorem settings_addTo (arguments : Arguments) (phrase : Phrase) :
    (phrase.addTo arguments).settings = arguments.settings ++ phrase.mentions := by
  cases phrase with
  | cluster | setO | shopt => rfl
  | command | noEnvironment | login => exact (List.append_nil _).symm

/-- The words that are no clusters. -/
def ownWords : List String := ["--", "--noenv", "--login", "-l", "-c", "-o", "+o", "-O", "+O"]

end Phrase

variable {on : Bool} {letters : List Char} {phrases : List Phrase} {args : List String} {arguments : Arguments}

/-- The arguments are the phrases, perhaps with `--` and anything else after them. -/
inductive Spells : List Phrase → List String → Prop where
  | done : Spells [] []
  | ended (rest : List String) : Spells [] ("--" :: rest)
  | cons (phrase : Phrase) {phrases : List Phrase} {args : List String} (h : Spells phrases args) :
    Spells (phrase :: phrases) (phrase.words ++ args)

/-! ## Reading -/

theorem Flag.eq_sign {c : Char} (h : ofSign? c = some on) : c = sign on := by
  unfold ofSign? at h
  split at h
  · cases h
    rfl
  · cases h
    rfl
  · cases h

theorem IsCluster.notMem_ownWords (h : IsCluster on letters) :
    String.ofList (Flag.sign on :: letters) ∉ Phrase.ownWords := by
  intro hMem
  have hText := List.mem_map_of_mem (f := String.toList) hMem
  rw [String.toList_ofList] at hText
  change _ ∈ [['-', '-'], '-' :: '-' :: "noenv".toList, '-' :: '-' :: "login".toList, ['-', 'l'], ['-', 'c'],
    ['-', 'o'], ['+', 'o'], ['-', 'O'], ['+', 'O']] at hText
  obtain ⟨hSmall, hCapital⟩ := h.unnamed
  cases on with
  | true =>
    obtain ⟨hSign, hLogin, hCommand⟩ := h.plain rfl
    simp [Flag.sign, hSmall, hCapital, hLogin, hCommand] at hText
    obtain rfl | rfl | rfl := hText <;> exact hSign rfl
  | false => simp [Flag.sign, hSmall, hCapital] at hText

namespace Arguments

theorem namedSetting?_eq_none {arg : String} (h : arg ∉ Phrase.ownWords) : namedSetting? arg = none := by
  rw [namedSetting?]
  all_goals
    rintro rfl
    exact h (by decide)

theorem readCluster_eq_ok (arguments : Arguments) (h : IsCluster on letters) :
    arguments.readCluster (String.ofList (Flag.sign on :: letters)) = .ok (arguments.addCluster on letters) := by
  obtain ⟨letter, rest, rfl⟩ := List.exists_cons_of_ne_nil h.nonempty
  rw [readCluster, String.toList_ofList]
  split
  · rename_i rest hText
    cases on with
    | true =>
      obtain ⟨rfl, -⟩ := List.cons.inj (List.cons.inj hText).2
      exact absurd rfl (h.plain rfl).1
    | false => cases hText
  · rename_i hText
    cases hText
    rw [Flag.ofSign?_sign]
  · rename_i hOther
    exact absurd rfl (hOther (Flag.sign on) letter rest)

theorem readArgs_words (arguments : Arguments) (phrase : Phrase) (rest : List String) :
    readArgs arguments (phrase.words ++ rest) = readArgs (phrase.addTo arguments) rest := by
  rw [readArgs.eq_def]
  cases phrase with
  | cluster on letters h =>
    have hOwn := h.notMem_ownWords
    have hNamed := namedSetting?_eq_none hOwn
    simp only [Phrase.ownWords, List.mem_cons, not_or] at hOwn
    obtain ⟨hEnd, hNoEnv, hLogin, hShort, hCommand, -⟩ := hOwn
    have hPlain : ¬(decide (String.ofList (Flag.sign on :: letters) = "--login") ||
        decide (String.ofList (Flag.sign on :: letters) = "-l")) = true := by
      rw [Bool.or_eq_true, decide_eq_true_eq, decide_eq_true_eq, not_or]
      exact ⟨hLogin, hShort⟩
    dsimp only [Phrase.words, List.cons_append, List.nil_append]
    rw [if_neg hEnd, if_neg hNoEnv, if_neg hPlain, if_neg hCommand, hNamed, readCluster_eq_ok arguments h]
    rfl
  | setO on name => cases on <;> rfl
  | shopt on name => cases on <;> rfl
  | command text => rfl
  | noEnvironment => rfl
  | login long => cases long <;> rfl

/-- Arguments that are phrases are read, and the settings are what the phrases mention. -/
theorem readArgs_of_spells (h : Spells phrases args) (arguments : Arguments) :
    ∃ read, readArgs arguments args = .ok read ∧
      read.settings = arguments.settings ++ phrases.flatMap Phrase.mentions := by
  induction h generalizing arguments with
  | done => exact ⟨arguments, by rw [readArgs], (List.append_nil _).symm⟩
  | ended rest => exact ⟨arguments, by rw [readArgs.eq_def]; rfl, (List.append_nil _).symm⟩
  | cons phrase _ ih =>
    obtain ⟨read, hRead, hSettings⟩ := ih (phrase.addTo arguments)
    refine ⟨read, (readArgs_words arguments phrase _).trans hRead, ?_⟩
    rw [hSettings, Phrase.settings_addTo, List.append_assoc, List.flatMap_cons]

theorem exists_words_of_namedSetting? {arg : String} {setting : String → Setting}
    (h : namedSetting? arg = some setting) (name : String) : ∃ phrase : Phrase, phrase.words = [arg, name] := by
  unfold namedSetting? at h
  split at h
  · exact ⟨.setO true name, rfl⟩
  · exact ⟨.setO false name, rfl⟩
  · exact ⟨.shopt true name, rfl⟩
  · exact ⟨.shopt false name, rfl⟩
  · cases h

theorem exists_words_of_readCluster {arg : String} {read : Arguments} (h : arguments.readCluster arg = .ok read)
    (hOwn : arg ∉ Phrase.ownWords) : ∃ phrase : Phrase, phrase.words = [arg] := by
  rw [readCluster] at h
  split at h
  · cases h
  · rename_i sign letter letters hDashes hText
    split at h
    · rename_i on hSign
      obtain rfl := Flag.eq_sign hSign
      have hArg : String.ofList (Flag.sign on :: letter :: letters) = arg := by rw [← hText, String.ofList_toList]
      rw [← hArg] at hOwn
      have hCluster : IsCluster on (letter :: letters) := by
        refine ⟨List.cons_ne_nil _ _, ⟨fun hSmall => ?_, fun hCapital => ?_⟩, ?_⟩
        · rw [hSmall] at hOwn
          cases on <;> exact hOwn (by decide)
        · rw [hCapital] at hOwn
          cases on <;> exact hOwn (by decide)
        · rintro rfl
          refine ⟨fun hHead => ?_, fun hLogin => ?_, fun hCommand => ?_⟩
          · exact hDashes rfl (Option.some.inj hHead)
          · rw [hLogin] at hOwn
            exact hOwn (by decide)
          · rw [hCommand] at hOwn
            exact hOwn (by decide)
      exact ⟨.cluster on (letter :: letters) hCluster, by rw [Phrase.words, hArg]⟩
    · cases h
  · cases h

theorem exists_spells_of_readArgs {read : Arguments} (h : readArgs arguments args = .ok read) :
    ∃ phrases, Spells phrases args := by
  fun_induction readArgs arguments args
  case case1 => exact ⟨[], .done⟩
  case case2 rest => exact ⟨[], .ended rest⟩
  case case3 ih =>
    obtain ⟨phrases, hRest⟩ := ih h
    exact ⟨_, .cons .noEnvironment hRest⟩
  case case4 arg rest hEnd hNoEnv hLogin ih =>
    obtain ⟨phrases, hRest⟩ := ih h
    rw [Bool.or_eq_true, decide_eq_true_eq, decide_eq_true_eq] at hLogin
    obtain rfl | rfl := hLogin
    · exact ⟨_, .cons (.login true) hRest⟩
    · exact ⟨_, .cons (.login false) hRest⟩
  case case5 => cases h
  case case6 command rest _ _ _ ih =>
    obtain ⟨phrases, hRest⟩ := ih h
    exact ⟨_, .cons (.command command) hRest⟩
  case case7 => cases h
  case case8 arg hEnd hNoEnv hLogin hCommand setting hNamed name rest ih =>
    obtain ⟨phrases, hRest⟩ := ih h
    obtain ⟨phrase, hWords⟩ := exists_words_of_namedSetting? hNamed name
    have hSpells := Spells.cons phrase hRest
    rw [hWords] at hSpells
    exact ⟨_, hSpells⟩
  case case9 arguments arg rest hEnd hNoEnv hLogin hCommand hNamed ih =>
    have hOwn : arg ∉ Phrase.ownWords := by
      rw [Bool.or_eq_true, decide_eq_true_eq, decide_eq_true_eq, not_or] at hLogin
      simp only [Phrase.ownWords, List.mem_cons, List.not_mem_nil, or_false, not_or]
      refine ⟨hEnd, hNoEnv, hLogin.1, hLogin.2, hCommand, ?_, ?_, ?_, ?_⟩
      all_goals
        rintro rfl
        cases hNamed
    cases hCluster : arguments.readCluster arg with
    | error error =>
      rw [hCluster] at h
      cases h
    | ok mid =>
      rw [hCluster] at h
      obtain ⟨phrases, hRest⟩ := ih mid h
      obtain ⟨phrase, hWords⟩ := exists_words_of_readCluster hCluster hOwn
      have hSpells := Spells.cons phrase hRest
      rw [hWords] at hSpells
      exact ⟨_, hSpells⟩

end Arguments

end OptionShell
