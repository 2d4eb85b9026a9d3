import HaskellAgent.Responses.JsonText

/-!
# Fragments of inline Markdown

A stream of inline Markdown is rendered as it comes.  `splitMarkdownFragment` cuts a text into the part
that can be rendered now and the part that begins at a construct that may not be complete: code,
a link, an emphasis or an escape.

What is a letter or a digit of some script is a parameter.
-/

open List Option

namespace HaskellAgent
namespace Markdown

/-! ### Constructs -/

def stripPrefix (lead text : Text) : Option Text := lead.isPrefixOf? text

def takeEscapedPunctuation (isAlphaNum : Char → Bool) (text : Text) : Option (Char × Text) :=
  match text with
  | '\\' :: character :: rest =>
    if '!' ≤ character ∧ character ≤ '~' ∧ isAlphaNum character = false then some (character, rest)
    else none
  | _ => none

theorem length_behind_run_lt {c : Char} {body : Text} (h : body.dropWhile (· ≠ c) ≠ []) :
    ((body.dropWhile (· ≠ c)).dropWhile (· = c)).length < body.length := by
  obtain ⟨head, rest, hrest⟩ := exists_cons_of_ne_nil h
  have hhead : head = c := by
    have hnot := head_dropWhile_not (· ≠ c) h
    simp only [hrest, head_cons] at hnot
    simpa using hnot
  have hlength := (dropWhile_suffix (· ≠ c) (l := body)).length_le
  have hbehind := (dropWhile_suffix (· = c) (l := rest)).length_le
  rw [hrest, length_cons] at hlength
  rw [hrest, dropWhile_cons_of_pos (by simpa using hhead)]
  omega

/-- The code up to a run of exactly `n` ticks, and what is behind the run. -/
def findClose (n : ℕ) (body : Text) : Option (Text × Text) :=
  let before := body.takeWhile (· ≠ '`')
  let rest := body.dropWhile (· ≠ '`')
  if _hrest : rest = [] then none
  else
    let closeRun := rest.takeWhile (· = '`')
    let afterClose := rest.dropWhile (· = '`')
    if closeRun.length = n then some (before, afterClose)
    else (findClose n afterClose).map fun (code, rest') => (before ++ closeRun ++ code, rest')
termination_by body.length
decreasing_by exact length_behind_run_lt _hrest

def takeInlineCode (t : Text) : Option (Text × Text) :=
  let n := (t.takeWhile (· = '`')).length
  if n = 0 then none else findClose n (t.dropWhile (· = '`'))

/-- The text up to the bracket that closes; a backslash takes the next character with it. -/
def takeBalanced (opening closing : Char) : ℕ → Text → Text → Option (Text × Text)
  | _, _, [] => none
  | depth, consumed, character :: rest =>
    if character = '\n' then none
    else if character = '\\' then
      match rest with
      | [] => none
      | escaped :: rest => takeBalanced opening closing depth (consumed ++ ['\\', escaped]) rest
    else if character = opening then
      takeBalanced opening closing (depth + 1) (consumed ++ [opening]) rest
    else if character = closing then
      match depth with
      | 0 => some (consumed, rest)
      | depth + 1 => takeBalanced opening closing depth (consumed ++ [closing]) rest
    else takeBalanced opening closing depth (consumed ++ [character]) rest

def takeLinkLabel (text : Text) : Option (Text × Text) := takeBalanced '[' ']' 0 [] text

def linkLabelEnd (text : Text) : Option Text := (takeLinkLabel text).map Prod.snd

def takeLinkDestination (text : Text) : Option (Text × Text) := takeBalanced '(' ')' 0 [] text

def destinationEnd (text : Text) : Option Text := (takeLinkDestination text).map Prod.snd

structure MarkdownLink where
  markdownLinkText : Text
  markdownLinkUrl : Text
  markdownLinkRest : Text

def takeLink (t : Text) : Option MarkdownLink := do
  let afterBracket ← stripPrefix ['['] t
  let (linkText, afterBracketClose) ← takeLinkLabel afterBracket
  let afterParen ← stripPrefix ['('] afterBracketClose
  let (url, rest) ← takeLinkDestination afterParen
  if linkText.isEmpty || url.isEmpty then none else some ⟨linkText, url, rest⟩

section Letters

variable (isAlphaNum : Char → Bool)

def isWordChar (c : Char) : Bool := isAlphaNum c || c == '_'

def isUnderscores (delim : Text) : Bool := delim == ['_'] || delim == ['_', '_']

def canOpen (prevChar : Option Char) (delim after : Text) : Bool :=
  match after with
  | [] => false
  | first :: _ =>
    if isSpace first then false
    else if isUnderscores delim then prevChar.all fun c => !isWordChar isAlphaNum c
    else true

def canClose (delim inner after : Text) : Bool :=
  match inner.getLast? with
  | none => false
  | some lastChar =>
    if isSpace lastChar then false
    else if isUnderscores delim then after.head?.all fun c => !isWordChar isAlphaNum c
    else true

def takeEmphasis (prevChar : Option Char) (delim t : Text) : Option (Text × Text) :=
  if !delim.isPrefixOf t then none
  else if !canOpen isAlphaNum prevChar delim (t.drop delim.length) then none
  else do
    let afterOpen ← stripPrefix delim t
    let (inner, rest) := breakOn delim afterOpen
    if inner.isEmpty || inner.contains '\n' then none
    else do
      let afterClose ← stripPrefix delim rest
      if canClose isAlphaNum delim inner afterClose then some (inner, afterClose) else none

/-- The construct at the front of a text: the character that it leaves in front of what follows, and
what follows. -/
def takeConstruct (prev : Option Char) (t : Text) : Option (Option Char × Text) :=
  ((takeEscapedPunctuation isAlphaNum t).map fun (escaped, rest) => (some escaped, rest))
    <|> ((takeInlineCode t).map fun (code, rest) => (code.getLast?, rest))
    <|> ((takeLink t).map fun link => (some ')', link.markdownLinkRest))
    <|> [['*', '*'], ['_', '_'], ['*'], ['_']].findSome? fun delim =>
      (takeEmphasis isAlphaNum prev delim t).map fun (inner, rest) => (inner.getLast?, rest)

/-! ### What is behind a construct -/

variable {text rest : Text}

theorem eq_append_of_stripPrefix {lead : Text} (h : stripPrefix lead text = some rest) :
    text = lead ++ rest :=
  (List.isPrefixOf?_eq_some_iff_append_eq.1 h).symm

/-- The text `rest` is behind a part of `text` that is not empty. -/
def Behind (text rest : Text) : Prop := ∃ taken, taken ≠ [] ∧ text = taken ++ rest

theorem Behind.length_lt (h : Behind text rest) : rest.length < text.length := by
  obtain ⟨taken, hne, rfl⟩ := h
  have hpos := length_pos_iff.2 hne
  rw [length_append]
  omega

theorem behind_of_suffix {middle : Text} (h : rest <:+ middle) (hbehind : Behind text middle) :
    Behind text rest := by
  obtain ⟨taken, hne, rfl⟩ := hbehind
  obtain ⟨more, rfl⟩ := h
  exact ⟨taken ++ more, append_ne_nil_of_left_ne_nil hne _, by rw [append_assoc]⟩

theorem behind_stripPrefix {lead : Text} (hlead : lead ≠ []) (h : stripPrefix lead text = some rest)
    : Behind text rest :=
  ⟨lead, hlead, eq_append_of_stripPrefix h⟩

theorem takeEscapedPunctuation_behind {escaped : Char}
    (h : takeEscapedPunctuation isAlphaNum text = some (escaped, rest)) : Behind text rest := by
  unfold takeEscapedPunctuation at h
  split at h
  · rename_i character tail
    split at h
    · obtain ⟨rfl, rfl⟩ := Prod.mk.inj (some.inj h)
      exact ⟨['\\', character], cons_ne_nil _ _, rfl⟩
    · exact absurd h (by simp)
  · exact absurd h (by simp)

theorem findClose_suffix {n : ℕ} {body code : Text} (h : findClose n body = some (code, rest)) :
    rest <:+ body := by
  induction hlength : body.length using Nat.strong_induction_on generalizing body code with
  | _ length ih =>
    have hbehind := (dropWhile_suffix (· = '`')).trans
      (dropWhile_suffix (· ≠ '`') (l := body))
    rw [findClose] at h
    dsimp only at h
    split at h
    · exact absurd h (by simp)
    · rename_i hrest
      split at h
      · cases h
        exact hbehind
      · obtain ⟨⟨inner, rest'⟩, hinner, heq⟩ := map_eq_some_iff.1 h
        cases heq
        exact (ih _ (hlength ▸ length_behind_run_lt hrest) hinner rfl).trans hbehind

theorem takeInlineCode_behind {code : Text} (h : takeInlineCode text = some (code, rest)) :
    Behind text rest := by
  unfold takeInlineCode at h
  dsimp only at h
  split at h
  · exact absurd h (by simp)
  · rename_i hne
    refine behind_of_suffix (findClose_suffix h) ⟨text.takeWhile (· = '`'), ?_, ?_⟩
    · exact fun hnil => hne (by rw [hnil, length_nil])
    · rw [takeWhile_append_dropWhile]

theorem takeBalanced_suffix {opening closing : Char} {depth : ℕ} {consumed inner : Text}
    (h : takeBalanced opening closing depth consumed text = some (inner, rest)) :
    rest <:+ text := by
  fun_induction takeBalanced opening closing depth consumed text with
  | case1 | case2 | case3 => exact absurd h (by simp)
  | case4 depth consumed escaped tail _ ih => exact (ih h).trans ⟨['\\', escaped], rfl⟩
  | case5 depth consumed tail _ _ ih => exact (ih h).trans (suffix_cons _ _)
  | case6 consumed tail =>
    obtain ⟨_, rfl⟩ := Prod.mk.inj (some.inj h)
    exact suffix_cons _ _
  | case7 consumed tail depth _ _ _ ih | case8 depth consumed character tail _ _ _ _ ih =>
    exact (ih h).trans (suffix_cons _ _)

theorem takeLink_behind {link : MarkdownLink} (h : takeLink text = some link) :
    Behind text link.markdownLinkRest := by
  simp only [takeLink, bind_eq_bind, bind_eq_some_iff] at h
  obtain ⟨afterBracket, hbracket, ⟨linkText, afterBracketClose⟩, hlabel, afterParen, hparen,
    ⟨url, rest⟩, hdestination, h⟩ := h
  dsimp only at hparen hdestination h
  split at h
  · exact absurd h (by simp)
  · cases h
    have hlast : rest <:+ afterParen := takeBalanced_suffix hdestination
    have hmiddle : afterParen <:+ afterBracketClose :=
      ⟨['('], (eq_append_of_stripPrefix hparen).symm⟩
    have hfirst : afterBracketClose <:+ afterBracket := takeBalanced_suffix hlabel
    exact behind_of_suffix ((hlast.trans hmiddle).trans hfirst)
      (behind_stripPrefix (cons_ne_nil _ _) hbracket)

theorem takeEmphasis_behind {prev : Option Char} {delim inner : Text} (hdelim : delim ≠ [])
    (h : takeEmphasis isAlphaNum prev delim text = some (inner, rest)) : Behind text rest := by
  unfold takeEmphasis at h
  split at h
  · exact absurd h (by simp)
  split at h
  · exact absurd h (by simp)
  obtain ⟨afterOpen, hopen, h⟩ := bind_eq_some_iff.1 h
  dsimp only at h
  split at h
  · exact absurd h (by simp)
  obtain ⟨afterClose, hclose, h⟩ := bind_eq_some_iff.1 h
  split at h
  · obtain ⟨_, rfl⟩ := Prod.mk.inj (some.inj h)
    have hrest : afterClose <:+ (breakOn delim afterOpen).2 :=
      ⟨delim, (eq_append_of_stripPrefix hclose).symm⟩
    exact behind_of_suffix (hrest.trans (breakOn_suffix delim afterOpen))
      (behind_stripPrefix hdelim hopen)
  · exact absurd h (by simp)

/-- **A construct is taken off the front of a text.** -/
theorem takeConstruct_behind {prev next : Option Char}
    (h : takeConstruct isAlphaNum prev text = some (next, rest)) : Behind text rest := by
  simp only [takeConstruct, orElse_eq_orElse, orElse_eq_or, or_eq_some_iff,
    map_eq_some_iff] at h
  obtain ⟨⟨escaped, tail⟩, htaken, heq⟩ | ⟨-, ⟨⟨code, tail⟩, htaken, heq⟩ | ⟨-,
    ⟨link, htaken, heq⟩ | ⟨-, h⟩⟩⟩ := h
  · exact (Prod.mk.inj heq).2 ▸ takeEscapedPunctuation_behind isAlphaNum htaken
  · exact (Prod.mk.inj heq).2 ▸ takeInlineCode_behind htaken
  · exact (Prod.mk.inj heq).2 ▸ takeLink_behind htaken
  · obtain ⟨delim, hmem, htaken⟩ := List.exists_of_findSome?_eq_some h
    obtain ⟨⟨inner, tail⟩, htaken, heq⟩ := map_eq_some_iff.1 htaken
    have hdelim : delim ≠ [] := by
      rintro rfl
      exact absurd hmem (by decide)
    exact (Prod.mk.inj heq).2 ▸ takeEmphasis_behind isAlphaNum hdelim htaken

/-! ### The cut -/

structure MarkdownFragmentSplit where
  markdownReady : Text
  markdownPending : Text
  markdownPrevChar : Option Char
  deriving DecidableEq

def incompleteLink (t : Text) : Bool :=
  match linkLabelEnd (t.drop 1) with
  | none => true
  | some afterBracket =>
    afterBracket.isEmpty ||
      match stripPrefix ['('] afterBracket with
      | none => false
      | some destination => (destinationEnd destination).isNone

def potentialEmphasis (prev : Option Char) (delim t : Text) : Bool :=
  match t.drop delim.length with
  | [] => true
  | first :: _ =>
    if isSpace first then false
    else if isUnderscores delim then prev.all fun c => !isWordChar isAlphaNum c
    else true

/-- What begins here may be completed by what comes next. -/
def shouldWait (prev : Option Char) (t : Text) : Bool :=
  if t.contains '\n' then false
  else if t = ['\\'] then true
  else if ['`'].isPrefixOf t then true
  else if ['['].isPrefixOf t then incompleteLink t
  else if ['*', '*'].isPrefixOf t then potentialEmphasis isAlphaNum prev ['*', '*'] t
  else if ['_', '_'].isPrefixOf t then potentialEmphasis isAlphaNum prev ['_', '_'] t
  else if ['*'].isPrefixOf t then potentialEmphasis isAlphaNum prev ['*'] t
  else if ['_'].isPrefixOf t then potentialEmphasis isAlphaNum prev ['_'] t
  else false

def isSpecial (c : Char) : Bool := ['\\', '`', '[', '*', '_'].contains c

/-- The loop of `splitMarkdownFragment`; what is taken stands in `chunks`, latest first. -/
def splitFragmentFrom (prev : Option Char) (chunks : List Text) (t : Text) :
    MarkdownFragmentSplit :=
  if _ht : t = [] then ⟨chunks.reverse.flatten, [], prev⟩
  else
    match _hconstruct : takeConstruct isAlphaNum prev t with
    | some (nextPrev, rest) =>
      splitFragmentFrom nextPrev (t.take (t.length - rest.length) :: chunks) rest
    | none =>
      if shouldWait isAlphaNum prev t then ⟨chunks.reverse.flatten, t, prev⟩
      else if _hplain : (t.takeWhile fun c => !isSpecial c) = [] then
        splitFragmentFrom (t.take 1).getLast? (t.take 1 :: chunks) (t.drop 1)
      else
        splitFragmentFrom (t.takeWhile fun c => !isSpecial c).getLast?
          ((t.takeWhile fun c => !isSpecial c) :: chunks) (t.dropWhile fun c => !isSpecial c)
termination_by t.length
decreasing_by
  · exact (takeConstruct_behind isAlphaNum _hconstruct).length_lt
  · have hpos := length_pos_iff.2 _ht
    rw [length_drop]
    omega
  · exact Behind.length_lt ⟨_, _hplain, takeWhile_append_dropWhile.symm⟩

def splitMarkdownFragment (initialPrev : Option Char) (t : Text) : MarkdownFragmentSplit :=
  splitFragmentFrom isAlphaNum initialPrev [] t

theorem splitFragmentFrom_append (prev : Option Char) (chunks : List Text) (t : Text) :
    (splitFragmentFrom isAlphaNum prev chunks t).markdownReady
        ++ (splitFragmentFrom isAlphaNum prev chunks t).markdownPending
      = chunks.reverse.flatten ++ t := by
  have hchunk : ∀ (chunk : Text) (chunks : List Text) (rest : Text),
      (chunk :: chunks).reverse.flatten ++ rest = chunks.reverse.flatten ++ (chunk ++ rest) := by
    intro chunk chunks rest
    rw [reverse_cons, flatten_append, flatten_singleton, append_assoc]
  fun_induction splitFragmentFrom isAlphaNum prev chunks t with
  | case1 => rfl
  | case2 prev chunks t _ next rest htaken ih =>
    obtain ⟨taken, _, rfl⟩ := takeConstruct_behind isAlphaNum htaken
    rw [ih, hchunk, length_append, Nat.add_sub_cancel, take_left]
  | case3 => rfl
  | case4 prev chunks t _ _ _ _ ih => rw [ih, hchunk, take_append_drop]
  | case5 prev chunks t _ _ _ _ ih => rw [ih, hchunk, takeWhile_append_dropWhile]

/-- **Both parts of a cut are the text together.** -/
theorem splitMarkdownFragment_append (prev : Option Char) (t : Text) :
    (splitMarkdownFragment isAlphaNum prev t).markdownReady
        ++ (splitMarkdownFragment isAlphaNum prev t).markdownPending = t :=
  splitFragmentFrom_append isAlphaNum prev [] t

end Letters

end Markdown
end HaskellAgent
