import HaskellAgent.Loop.InputItems
import Mathlib.Data.List.TakeWhile

/-!
# Recursive deletions

A command is searched for an `rm` that deletes recursively and without asking.  The text is split at
the separators of commands, whatever is quoted, and each segment into words; assignments and
wrappers before the `rm` are passed over.

Which characters beyond ASCII are letters or digits is a parameter.  Only ASCII letters have the
small letters that the words are compared with.
-/

open List

namespace HaskellAgent
namespace Dangerous

def isHorzSpace (c : Char) : Bool := c == ' ' || c == '\t' || c == '\n'

/-- The words of a segment, empty ones among them. -/
def tokenizeFrom (cs : Text) : List Text :=
  match _h : cs.dropWhile isHorzSpace with
  | [] => []
  | c :: rest =>
    if c = '\'' ∨ c = '"' then
      rest.takeWhile (· ≠ c) :: tokenizeFrom (rest.dropWhile (· ≠ c)).tail
    else
      (c :: rest).takeWhile (!isHorzSpace ·) :: tokenizeFrom (rest.dropWhile (!isHorzSpace ·))
termination_by cs.length
decreasing_by
  all_goals
    have hle := _h ▸ (dropWhile_suffix (l := cs) isHorzSpace).length_le
    rw [length_cons] at hle
  · have := (dropWhile_suffix (l := rest) (· ≠ c)).length_le
    rw [length_tail]
    omega
  · have := (dropWhile_suffix (l := rest) (!isHorzSpace ·)).length_le
    omega

def tokenize (segment : Text) : List Text := (tokenizeFrom segment).filter (!·.isEmpty)

def splitShellSegments (command : Text) : List Text :=
  (command.splitOnP fun c => c == ';' || c == '|' || c == '&' || c == '\n').filter
    (!·.all isSpace)

def toLower (text : Text) : Text := text.map Char.toLower

def wrappers : List Text :=
  ["sudo", "env", "command", "nice", "nohup", "time", "stdbuf"].map String.toList

def isRmCommand (cmd : Text) : Bool :=
  let base := toLower (cmd.reverse.takeWhile (· ≠ '/')).reverse
  base == "rm".toList || base == "rm.exe".toList

def isFlag (t : Text) : Bool := t.head? == some '-'

def isLongFlag (t : Text) : Bool := "--".toList.isPrefixOf t

def stripDashes (t : Text) : Text := t.dropWhile (· == '-')

/-- The option `name`, or `name=value`. -/
def isLong (name t : Text) : Bool :=
  toLower t == name || (name ++ ['=']).isPrefixOf (toLower t)

def flagsHaveRecursiveForce (args : List Text) : Bool :=
  let flags := args.takeWhile isFlag
  let shortFlags := flags.filter (!isLongFlag ·)
  let clustered := (shortFlags.map stripDashes).flatten
  let lower := toLower clustered
  let hasR := lower.any (· == 'r') || flags.any (isLong "--recursive".toList)
  let hasF := lower.any (· == 'f') || flags.any (isLong "--force".toList)
  hasR && hasF

section Search

variable (isAlphaNum : Char → Bool)

/-- A leading word that is passed over. -/
def isEnvPrefix (t : Text) : Bool :=
  (t.any (· == '=') && !isFlag t &&
    (t.takeWhile (· ≠ '=')).all fun c => isAlphaNum c || c == '_') ||
  wrappers.contains (toLower t)

def dropEnvPrefixes (words : List Text) : List Text := words.dropWhile (isEnvPrefix isAlphaNum)

def segmentLooksLikeRmRf (segment : Text) : Bool :=
  match dropEnvPrefixes isAlphaNum (tokenize segment) with
  | cmd :: rest => isRmCommand cmd && flagsHaveRecursiveForce rest
  | [] => false

def commandLooksLikeRmRf (command : Text) : Bool :=
  (splitShellSegments command).any (segmentLooksLikeRmRf isAlphaNum)

end Search

/-! ### What a shell runs -/

inductive Quoting
  | bare
  | single
  | double

def Quoting.spell : Quoting → Text → Text
  | bare, word => word
  | single, word => '\'' :: (word ++ ['\''])
  | double, word => '"' :: (word ++ ['"'])

/-- The words that a quoting can spell. -/
def Quoting.Spellable : Quoting → Text → Prop
  | bare, word => word ≠ [] ∧ ∀ c ∈ word, isHorzSpace c = false ∧ c ∉ ['\'', '"', '\\']
  | single, word => '\'' ∉ word
  | double, word => ∀ c ∈ word, c ∉ ['"', '\\', '$', Char.ofNat 96]

/-- The segment writes the words, each bare or quoted as a whole, with blanks between them. -/
inductive Spells : Text → List Text → Prop
  | nil {blanks : Text} (hblanks : ∀ c ∈ blanks, isHorzSpace c = true) : Spells blanks []
  | cons {blanks word rest : Text} {quoting : Quoting} {words : List Text}
      (hblanks : ∀ c ∈ blanks, isHorzSpace c = true) (hword : quoting.Spellable word)
      (hend : ∀ c ∈ rest.head?, isHorzSpace c = true) (hrest : Spells rest words) :
      Spells (blanks ++ (quoting.spell word ++ rest)) (word :: words)

def IsAssignment (word : Text) : Prop :=
  ∃ first name value, word = first :: (name ++ '=' :: value) ∧
    (first.isAlpha = true ∨ first = '_') ∧ ∀ c ∈ name, c.isAlphanum = true ∨ c = '_'

/-- A word of options, in a cluster or spelled long. -/
def IsOption (letters : List Char) (long word : Text) : Prop :=
  word = long ∨ ∃ cluster, word = '-' :: cluster ∧ cluster.head? ≠ some '-' ∧
    ∃ letter ∈ letters, letter ∈ cluster

/-- Some segment runs `rm` with a recursive and a force option before `--`. -/
def DeletesTree (command : Text) : Prop :=
  ∃ segment ∈ splitShellSegments command, ∃ leading cmd args,
    Spells segment (leading ++ cmd :: args) ∧
    (∀ word ∈ leading, IsAssignment word ∨ word ∈ wrappers) ∧ isRmCommand cmd = true ∧
    (∃ word ∈ args.takeWhile (· ≠ "--".toList), IsOption ['r', 'R'] "--recursive".toList word) ∧
    ∃ word ∈ args.takeWhile (· ≠ "--".toList), IsOption ['f'] "--force".toList word

/-- The options that are read. -/
def ReadsOption (letter : Char) (long flag : Text) : Prop :=
  (isLongFlag flag = false ∧ letter ∈ toLower (stripDashes flag)) ∨ isLong long flag = true

/-- Among the words, behind the leading ones, stands `rm`, and right behind it options that say
both. -/
def OptionsLead (isAlphaNum : Char → Bool) (words : List Text) : Prop :=
  ∃ leading cmd flags operands, words = leading ++ cmd :: (flags ++ operands) ∧
    (∀ word ∈ leading, isEnvPrefix isAlphaNum word = true) ∧ isEnvPrefix isAlphaNum cmd = false ∧
    isRmCommand cmd = true ∧ (∀ flag ∈ flags, isFlag flag = true) ∧
    (∃ flag ∈ flags, ReadsOption 'r' "--recursive".toList flag) ∧
    ∃ flag ∈ flags, ReadsOption 'f' "--force".toList flag

/-! ### Reading words -/

theorem tokenizeFrom_blanks {blanks : Text} (h : ∀ c ∈ blanks, isHorzSpace c = true)
    (rest : Text) : tokenizeFrom (blanks ++ rest) = tokenizeFrom rest := by
  rw [tokenizeFrom, tokenizeFrom, dropWhile_append_of_pos h]

theorem tokenizeFrom_word {c : Char} (hc : isHorzSpace c = false) (rest : Text) :
    tokenizeFrom (c :: rest) =
      if c = '\'' ∨ c = '"' then
        rest.takeWhile (· ≠ c) :: tokenizeFrom (rest.dropWhile (· ≠ c)).tail
      else
        (c :: rest).takeWhile (!isHorzSpace ·) :: tokenizeFrom (rest.dropWhile (!isHorzSpace ·)) := by
  rw [tokenizeFrom, dropWhile_cons_of_neg (by simp [hc])]

/-- A word up to the first character behind it that ends it. -/
theorem takeWhile_append_head (p : Char → Bool) {word rest : Text} (h : ∀ c ∈ word, p c = true)
    (hend : ∀ c ∈ rest.head?, p c = false) :
    (word ++ rest).takeWhile p = word ∧ (word ++ rest).dropWhile p = rest := by
  rw [takeWhile_append_of_pos h, dropWhile_append_of_pos h]
  cases rest with
  | nil => simp
  | cons c rest =>
    have hc := hend c rfl
    simp [hc]

theorem tokenizeFrom_quoted {quote : Char} (hquote : quote = '\'' ∨ quote = '"') {word : Text}
    (h : quote ∉ word) (rest : Text) :
    tokenizeFrom (quote :: (word ++ [quote] ++ rest)) = word :: tokenizeFrom rest := by
  have hblank : isHorzSpace quote = false := by
    rcases hquote with rfl | rfl <;> decide
  have hword : ∀ c ∈ word, decide (c ≠ quote) = true := fun c hc =>
    decide_eq_true (ne_of_mem_of_not_mem hc h)
  have hend : ∀ c ∈ (quote :: rest).head?, decide (c ≠ quote) = false := by simp
  obtain ⟨htake, hdrop⟩ := takeWhile_append_head (fun c => decide (c ≠ quote)) hword hend
  rw [tokenizeFrom_word hblank, if_pos hquote, append_assoc, singleton_append, htake, hdrop,
    tail_cons]

theorem tokenizeFrom_spelled {segment : Text} {words : List Text} (h : Spells segment words) :
    tokenizeFrom segment = words := by
  induction h with
  | nil hblanks =>
    have hnil := tokenizeFrom_blanks hblanks []
    rw [append_nil] at hnil
    rw [hnil, tokenizeFrom]
    rfl
  | @cons blanks word rest quoting words hblanks hword hend hrest ih =>
    rw [tokenizeFrom_blanks hblanks]
    cases quoting with
    | bare =>
      obtain ⟨hne, hchars⟩ := hword
      obtain ⟨c, tail, rfl⟩ := exists_cons_of_ne_nil hne
      obtain ⟨⟨hc, hquotes⟩, htail⟩ := forall_mem_cons.mp hchars
      obtain ⟨htake, hdrop⟩ := takeWhile_append_head (!isHorzSpace ·)
        (fun c hc => by simp [(htail c hc).1]) (fun c hc => by simp [hend c hc])
      have hquote : ¬ (c = '\'' ∨ c = '"') := by simp_all
      rw [Quoting.spell, cons_append, tokenizeFrom_word hc, if_neg hquote, hdrop, ih,
        takeWhile_cons_of_pos (by simp [hc]), htake]
    | single => rw [Quoting.spell, cons_append, tokenizeFrom_quoted (.inl rfl) hword, ih]
    | double =>
      rw [Quoting.spell, cons_append,
        tokenizeFrom_quoted (.inr rfl) (fun hmem => hword _ hmem (by simp)), ih]

/-- The words are read as the shell reads them, but for the empty ones. -/
theorem tokenize_spelled {segment : Text} {words : List Text} (h : Spells segment words) :
    tokenize segment = words.filter (!·.isEmpty) := by
  rw [tokenize, tokenizeFrom_spelled h]

/-! ### Reading options -/

theorem clustered_iff (letter : Char) (long : Text) (flags : List Text) :
    ((toLower ((flags.filter (!isLongFlag ·)).map stripDashes).flatten).any (· == letter) ||
      flags.any (isLong long)) = true ↔ ∃ flag ∈ flags, ReadsOption letter long flag := by
  simp only [Bool.or_eq_true, any_eq_true, beq_iff_eq, exists_eq_right, ReadsOption, and_or_left,
    exists_or]
  refine or_congr ?_ Iff.rfl
  simp only [toLower, mem_map, mem_flatten, mem_filter]
  grind

theorem ReadsOption.mono {letter : Char} {long : Text} {flags more : List Text}
    (hsub : ∀ flag ∈ flags, flag ∈ more) (h : ∃ flag ∈ flags, ReadsOption letter long flag) :
    ∃ flag ∈ more, ReadsOption letter long flag := by
  obtain ⟨flag, hmem, hflag⟩ := h
  exact ⟨flag, hsub flag hmem, hflag⟩

theorem segmentLooksLikeRmRf_iff (isAlphaNum : Char → Bool) (segment : Text) :
    segmentLooksLikeRmRf isAlphaNum segment = true ↔ OptionsLead isAlphaNum (tokenize segment) := by
  rw [segmentLooksLikeRmRf, dropEnvPrefixes]
  constructor
  · intro h
    cases hwords : (tokenize segment).dropWhile (isEnvPrefix isAlphaNum) with
    | nil => simp [hwords] at h
    | cons cmd rest =>
      rw [hwords] at h
      obtain ⟨hcmd, hflags⟩ := Bool.and_eq_true_iff.mp h
      obtain ⟨hr, hf⟩ := Bool.and_eq_true_iff.mp hflags
      refine ⟨(tokenize segment).takeWhile (isEnvPrefix isAlphaNum), cmd, rest.takeWhile isFlag,
        rest.dropWhile isFlag, ?_, fun _ => mem_takeWhile_imp, ?_, hcmd,
        fun _ => mem_takeWhile_imp, (clustered_iff _ _ _).mp hr, (clustered_iff _ _ _).mp hf⟩
      · rw [takeWhile_append_dropWhile, ← hwords, takeWhile_append_dropWhile]
      · have hne : (tokenize segment).dropWhile (isEnvPrefix isAlphaNum) ≠ [] := by simp [hwords]
        simpa [hwords] using head_dropWhile_not (isEnvPrefix isAlphaNum) hne
  · rintro ⟨leading, cmd, flags, operands, hwords, hleading, hcmd, hrm, hflags, hr, hf⟩
    rw [hwords, dropWhile_append_of_pos hleading, dropWhile_cons_of_neg (by simp [hcmd])]
    have hsub : ∀ flag ∈ flags, flag ∈ (flags ++ operands).takeWhile isFlag := by
      rw [takeWhile_append_of_pos hflags]
      exact fun flag => mem_append_left _
    have hboth : flagsHaveRecursiveForce (flags ++ operands) = true :=
      Bool.and_eq_true_iff.mpr ⟨(clustered_iff _ _ _).mpr (ReadsOption.mono hsub hr),
        (clustered_iff _ _ _).mpr (ReadsOption.mono hsub hf)⟩
    dsimp only
    rw [hrm, hboth, Bool.and_self]

end Dangerous
end HaskellAgent
