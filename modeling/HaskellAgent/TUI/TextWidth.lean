import HaskellAgent.Loop.Input

/-!
# Terminal graphemes

A terminal shows some runs of characters in one piece: a base with its combining marks, a flag, a
keycap, an emoji with what is joined to it.  `graphemeClusters` cuts a text into these pieces and
`displayTerminalText` replaces what a terminal would take for a control, piece by piece.  A stream is
cut by `splitTerminalGraphemeSuffix`, which holds back the piece that the next chunk may still join.

The general categories of the characters and the widths of the terminal library are a parameter.
-/

open List

namespace HaskellAgent

namespace TextWidth

inductive GeneralCategory
  | uppercaseLetter | lowercaseLetter | titlecaseLetter | modifierLetter | otherLetter
  | nonSpacingMark | spacingCombiningMark | enclosingMark
  | decimalNumber | letterNumber | otherNumber
  | connectorPunctuation | dashPunctuation | openPunctuation | closePunctuation
  | initialQuote | finalQuote | otherPunctuation
  | mathSymbol | currencySymbol | modifierSymbol | otherSymbol
  | space | lineSeparator | paragraphSeparator
  | control | format | surrogate | privateUse | notAssigned
  deriving DecidableEq

/-- The Unicode categories, and the widths that the terminal library has for characters and texts. -/
structure WidthTables where
  generalCategory : Char → GeneralCategory
  safeWcwidth : Char → ℕ
  safeWctwidth : Text → ℕ

/-! ### Characters -/

def zeroWidthJoiner : Char := '\u200D'

def enclosingKeycap : Char := '\u20E3'

def replacementCharacter : Char := '\uFFFD'

/-- An extended pictograph, as far as it is known here. -/
def isEmojiCandidate (character : Char) : Bool :=
  let code := character.toNat
  (0x1F000 ≤ code && code ≤ 0x1FAFF)
    || (0x2600 ≤ code && code ≤ 0x27FF)
    || code == 0x00A9
    || code == 0x00AE
    || code == 0x3030
    || code == 0x303D
    || code == 0x3297
    || code == 0x3299

def isRegionalIndicator (character : Char) : Bool :=
  let code := character.toNat
  0x1F1E6 ≤ code && code ≤ 0x1F1FF

def isRegionalIndicatorPair (characters : Text) : Bool :=
  (characters.filter isRegionalIndicator).length == 2

def isKeycapBase (character : Char) : Bool :=
  ('0' ≤ character && character ≤ '9') || character == '#' || character == '*'

def isKeycapCluster (characters : Text) : Bool :=
  characters.contains enclosingKeycap && characters.any isKeycapBase

def isEmojiModifier (character : Char) : Bool :=
  let code := character.toNat
  0x1F3FB ≤ code && code ≤ 0x1F3FF

def isEmojiTag (character : Char) : Bool :=
  let code := character.toNat
  0xE0020 ≤ code && code ≤ 0xE007F

def hasEmojiTagSequence (characters : Text) : Bool :=
  characters.any isEmojiTag && characters.any isEmojiCandidate

def isVariationSelector (character : Char) : Bool :=
  let code := character.toNat
  (0xFE00 ≤ code && code ≤ 0xFE0F) || (0xE0100 ≤ code && code ≤ 0xE01EF)

def isPrintableAscii (character : Char) : Bool := ' ' ≤ character && character ≤ '~'

/-- Whether a cluster may be joined by the text behind it. -/
def clusterMayExtend (cluster : Text) : Bool :=
  cluster.any isEmojiCandidate || cluster.any isKeycapBase

def needsVtyCompatibleWidth (cluster : Text) : Bool :=
  cluster.any isEmojiCandidate || isKeycapCluster cluster

variable {character : Char}

theorem isEmojiCandidate_of_isRegionalIndicator (h : isRegionalIndicator character = true) :
    isEmojiCandidate character = true := by
  simp only [isRegionalIndicator, isEmojiCandidate, Bool.and_eq_true, Bool.or_eq_true,
    decide_eq_true_eq] at h ⊢
  omega

theorem clusterMayExtend_eq_false_iff {cluster : Text} :
    clusterMayExtend cluster = false ↔
      cluster.any isEmojiCandidate = false ∧ cluster.any isKeycapBase = false := by
  rw [clusterMayExtend, Bool.or_eq_false_iff]

theorem isPrintableAscii_of_isKeycapBase (h : isKeycapBase character = true) :
    isPrintableAscii character = true := by
  simp only [isKeycapBase, isPrintableAscii, Bool.or_eq_true, Bool.and_eq_true, decide_eq_true_eq,
    beq_iff_eq] at h ⊢
  obtain (⟨hlow, hhigh⟩ | rfl) | rfl := h
  · exact ⟨le_trans (show ' ' ≤ '0' by decide) hlow, le_trans hhigh (show '9' ≤ '~' by decide)⟩
  · exact ⟨by decide, by decide⟩
  · exact ⟨by decide, by decide⟩

theorem toNat_of_isPrintableAscii (h : isPrintableAscii character = true) :
    32 ≤ character.toNat ∧ character.toNat ≤ 126 := by
  simp only [isPrintableAscii, Bool.and_eq_true, decide_eq_true_eq] at h
  exact ⟨h.1, h.2⟩

theorem isEmojiCandidate_of_isPrintableAscii (h : isPrintableAscii character = true) :
    isEmojiCandidate character = false := by
  have hcode := toNat_of_isPrintableAscii h
  simp only [isEmojiCandidate, Bool.or_eq_false_iff, Bool.and_eq_false_iff, decide_eq_false_iff_not,
    beq_eq_false_iff_ne]
  omega

section Tables

variable (tables : WidthTables)

def isCombiningMark (character : Char) : Bool :=
  [.nonSpacingMark, .spacingCombiningMark, .enclosingMark].contains
    (tables.generalCategory character)

/-- What the Unicode tables say about pictographs and about ASCII. -/
structure WidthTables.Standard : Prop where
  mark_not_candidate : ∀ character, isCombiningMark tables character = true →
    isEmojiCandidate character = false
  printable_not_mark : ∀ character, isPrintableAscii character = true →
    isCombiningMark tables character = false
  printable_not_format : ∀ character, isPrintableAscii character = true →
    tables.generalCategory character ≠ .format

def isWideCharacter (character : Char) : Bool :=
  let code := character.toNat
  tables.safeWcwidth character == 2 || (0x1F300 ≤ code && code ≤ 0x1FAFF)

def charCellWidth (character : Char) : ℕ :=
  if isCombiningMark tables character then 0
  else if [.control, .format, .surrogate, .notAssigned].contains
      (tables.generalCategory character) then 0
  else if isWideCharacter tables character then 2
  else 1

/-! ### Clusters -/

/-- A character that belongs to what is in front of it; modifiers and tags only behind an emoji. -/
def isExtension (allowEmoji : Bool) (character : Char) : Bool :=
  isCombiningMark tables character
    || (allowEmoji && (isEmojiModifier character || isEmojiTag character))

def takeClusterExtensions (allowEmoji : Bool) : Text → Text × Text
  | [] => ([], [])
  | character :: rest =>
    if isExtension tables allowEmoji character then
      let (extensions, remaining) := takeClusterExtensions allowEmoji rest
      (character :: extensions, remaining)
    else ([], character :: rest)

theorem takeClusterExtensions_append (allowEmoji : Bool) (text : Text) :
    (takeClusterExtensions tables allowEmoji text).1
      ++ (takeClusterExtensions tables allowEmoji text).2 = text := by
  induction text with
  | nil => rfl
  | cons character rest ih =>
    rw [takeClusterExtensions]
    split
    · exact congrArg (character :: ·) ih
    · rfl

theorem takeClusterExtensions_length (allowEmoji : Bool) (text : Text) :
    (takeClusterExtensions tables allowEmoji text).2.length ≤ text.length := by
  have h := congrArg List.length (takeClusterExtensions_append tables allowEmoji text)
  rw [length_append] at h
  omega

/-- The joins behind a cluster, one after the other. -/
def takeEmojiJoins (cluster : Text) : Text → Text × Text
  | joiner :: next :: rest =>
    if joiner = zeroWidthJoiner ∧ cluster.any isEmojiCandidate = true
        ∧ isEmojiCandidate next = true then
      let taken := takeClusterExtensions tables true rest
      takeEmojiJoins (cluster ++ zeroWidthJoiner :: next :: taken.1) taken.2
    else (cluster, joiner :: next :: rest)
  | rest => (cluster, rest)
termination_by text => text.length
decreasing_by
  have h := takeClusterExtensions_length tables true rest
  simp only [length_cons]
  omega

def takeCluster : Text → Text × Text
  | [] => ([], [])
  | character :: rest =>
    if isRegionalIndicator character then
      match takeClusterExtensions tables true rest with
      | (extensions, next :: remaining) =>
        if isRegionalIndicator next then
          let (nextExtensions, afterNext) := takeClusterExtensions tables true remaining
          (character :: extensions ++ next :: nextExtensions, afterNext)
        else (character :: extensions, next :: remaining)
      | (extensions, []) => (character :: extensions, [])
    else
      let (extensions, afterExtensions) :=
        takeClusterExtensions tables (isEmojiCandidate character) rest
      takeEmojiJoins tables (character :: extensions) afterExtensions

/-! ### What a cluster leaves behind it -/

/-- Nothing in front of `rest` tells it from `other`: they begin with the same character, and behind
a joiner with the same two; a text that ends is told from no other. -/
def SameStart : Text → Text → Prop
  | _, [] => True
  | [], _ :: _ => False
  | character :: rest, character' :: rest' =>
    character' = character ∧
      (character = zeroWidthJoiner → rest' = [] ∨ rest'.head? = rest.head?)

theorem SameStart.append_left (start : Text) {rest other : Text} (h : SameStart rest other) :
    SameStart (start ++ rest) (start ++ other) := by
  match start with
  | [] => exact h
  | [character] =>
    refine ⟨rfl, fun _ => ?_⟩
    match rest, other, h with
    | _, [], _ => exact Or.inl rfl
    | head :: _, head' :: _, ⟨hhead, _⟩ => exact Or.inr (congrArg some hhead)
  | character :: next :: start => exact ⟨rfl, fun _ => Or.inr rfl⟩

variable {character : Char} {rest : Text}

theorem SameStart.append_right (h : character = zeroWidthJoiner → rest ≠ []) (more : Text) :
    SameStart (character :: rest) (character :: rest ++ more) := by
  refine ⟨rfl, fun hjoiner => Or.inr ?_⟩
  obtain ⟨next, rest, rfl⟩ := exists_cons_of_ne_nil (h hjoiner)
  rfl

variable {other : Text}

theorem SameStart.head_not (h : SameStart rest other) {p : Char → Bool}
    (hhead : ∀ character ∈ rest.head?, p character = false) :
    ∀ character ∈ other.head?, p character = false := by
  match rest, other, h with
  | _, [], _ => exact fun _ hmem => absurd hmem (by simp)
  | head :: _, head' :: _, ⟨hsame, _⟩ =>
    subst hsame
    exact hhead

variable {extensions : Text}

theorem takeClusterExtensions_eq {allowEmoji : Bool}
    (hext : ∀ character ∈ extensions, isExtension tables allowEmoji character = true)
    (hrest : ∀ character ∈ rest.head?, isExtension tables allowEmoji character = false) :
    takeClusterExtensions tables allowEmoji (extensions ++ rest) = (extensions, rest) := by
  induction extensions with
  | nil =>
    cases rest with
    | nil => rfl
    | cons head rest =>
      rw [nil_append, takeClusterExtensions, hrest head rfl]
      rfl
  | cons head extensions ih =>
    rw [cons_append, takeClusterExtensions, if_pos (hext head mem_cons_self),
      ih fun character hmem => hext character (mem_cons_of_mem _ hmem)]

theorem takeClusterExtensions_spec (allowEmoji : Bool) (text : Text) :
    (∀ character ∈ (takeClusterExtensions tables allowEmoji text).1,
        isExtension tables allowEmoji character = true) ∧
      ∀ character ∈ (takeClusterExtensions tables allowEmoji text).2.head?,
        isExtension tables allowEmoji character = false := by
  induction text with
  | nil => exact ⟨fun _ hmem => absurd hmem (by simp [takeClusterExtensions]),
      fun _ hmem => absurd hmem (by simp [takeClusterExtensions])⟩
  | cons head rest ih =>
    rw [takeClusterExtensions]
    by_cases hhead : isExtension tables allowEmoji head = true
    · rw [if_pos hhead]
      exact ⟨fun character hmem => (mem_cons.1 hmem).elim (fun h => h ▸ hhead)
        (ih.1 character), ih.2⟩
    · rw [if_neg hhead]
      refine ⟨fun _ hmem => absurd hmem (by simp), fun character hmem => ?_⟩
      obtain rfl : head = character := Option.some.inj hmem
      exact Bool.eq_false_iff.2 hhead

variable {text : Text}

/-- The extensions are the same in front of a text that cannot be told apart. -/
theorem takeClusterExtensions_of_sameStart {allowEmoji : Bool}
    (h : takeClusterExtensions tables allowEmoji text = (extensions, rest))
    (hsame : SameStart rest other) :
    takeClusterExtensions tables allowEmoji (extensions ++ other) = (extensions, other) := by
  have hspec := takeClusterExtensions_spec tables allowEmoji text
  rw [h] at hspec
  exact takeClusterExtensions_eq tables hspec.1 (hsame.head_not hspec.2)

/-- What is joined to a cluster that has an emoji. -/
def emojiJoins : Text → Text × Text
  | joiner :: next :: rest =>
    if joiner = zeroWidthJoiner ∧ isEmojiCandidate next = true then
      (zeroWidthJoiner :: next :: (takeClusterExtensions tables true rest).1
          ++ (emojiJoins (takeClusterExtensions tables true rest).2).1,
        (emojiJoins (takeClusterExtensions tables true rest).2).2)
    else ([], joiner :: next :: rest)
  | rest => ([], rest)
termination_by text => text.length
decreasing_by
  have h := takeClusterExtensions_length tables true rest
  simp only [length_cons]
  omega

variable {cluster : Text}

theorem takeEmojiJoins_of_not_any (h : cluster.any isEmojiCandidate = false) (text : Text) :
    takeEmojiJoins tables cluster text = (cluster, text) := by
  unfold takeEmojiJoins
  split
  · rw [if_neg (by simp [h])]
  · rfl

theorem takeEmojiJoins_of_any (h : cluster.any isEmojiCandidate = true) (text : Text) :
    takeEmojiJoins tables cluster text
      = (cluster ++ (emojiJoins tables text).1, (emojiJoins tables text).2) := by
  induction text using emojiJoins.induct tables generalizing cluster with
  | case1 joiner next rest hjoin ih =>
    rw [takeEmojiJoins, emojiJoins, if_pos ⟨hjoin.1, h, hjoin.2⟩, if_pos hjoin, ih (by simp [h]),
      append_assoc]
  | case2 joiner next rest hjoin =>
    rw [takeEmojiJoins, emojiJoins, if_neg fun hall => hjoin ⟨hall.1, hall.2.2⟩, if_neg hjoin,
      List.append_nil]
  | case3 rest hrest =>
    rw [takeEmojiJoins.eq_2 _ _ _ hrest, emojiJoins.eq_2 _ _ hrest, List.append_nil]

theorem emojiJoins_append (text : Text) :
    (emojiJoins tables text).1 ++ (emojiJoins tables text).2 = text := by
  fun_induction emojiJoins tables text with
  | case1 joiner next rest hjoin ih =>
    rw [hjoin.1, append_assoc, ih, cons_append, cons_append,
      takeClusterExtensions_append]
  | case2 | case3 => rfl

theorem SameStart.no_join (h : SameStart rest other)
    (hrest : ∀ next more, rest = zeroWidthJoiner :: next :: more → isEmojiCandidate next = false) :
    ∀ next more, other = zeroWidthJoiner :: next :: more → isEmojiCandidate next = false := by
  rintro next more rfl
  match rest, h with
  | head :: tail, ⟨hhead, hnext⟩ =>
    subst hhead
    obtain hnil | hnext := hnext rfl
    · exact absurd hnil (cons_ne_nil _ _)
    · obtain ⟨more', rfl⟩ : ∃ more', tail = next :: more' := List.head?_eq_some_iff.1 hnext.symm
      exact hrest next more' rfl

theorem emojiJoins_of_no_join
    (h : ∀ next more, text = zeroWidthJoiner :: next :: more → isEmojiCandidate next = false) :
    emojiJoins tables text = ([], text) := by
  unfold emojiJoins
  split
  · rename_i joiner next rest
    rw [if_neg]
    rintro ⟨rfl, hnext⟩
    exact absurd (h next rest rfl) (by simp [hnext])
  · rfl

/-- The joins are the same in front of a text that cannot be told apart. -/
theorem emojiJoins_of_sameStart {joins : Text} (h : emojiJoins tables text = (joins, rest))
    (hsame : SameStart rest other) : emojiJoins tables (joins ++ other) = (joins, other) := by
  induction text using emojiJoins.induct tables generalizing joins with
  | case1 joiner next tail hjoin ih =>
    rw [emojiJoins, if_pos hjoin] at h
    obtain ⟨rfl, hrest⟩ := Prod.mk.inj h
    set taken := takeClusterExtensions tables true tail with htaken
    have hremaining : taken.2 = (emojiJoins tables taken.2).1 ++ rest := by
      rw [← hrest, emojiJoins_append]
    have hext : takeClusterExtensions tables true
        (taken.1 ++ ((emojiJoins tables taken.2).1 ++ other))
          = (taken.1, (emojiJoins tables taken.2).1 ++ other) := by
      refine takeClusterExtensions_of_sameStart tables htaken.symm ?_
      exact (congrArg (SameStart · _) hremaining).mpr (hsame.append_left _)
    have hjoins := ih (Prod.ext rfl hrest)
    rw [append_assoc, cons_append, cons_append, emojiJoins,
      if_pos ⟨rfl, hjoin.2⟩, hext, hjoins]
  | case2 joiner next tail hjoin =>
    rw [emojiJoins, if_neg hjoin] at h
    cases h
    refine emojiJoins_of_no_join tables (hsame.no_join ?_)
    rintro next' more heq
    obtain ⟨rfl, rfl, rfl⟩ : joiner = zeroWidthJoiner ∧ next = next' ∧ tail = more := by
      simpa using heq
    exact Bool.eq_false_iff.2 fun hnext => hjoin ⟨rfl, hnext⟩
  | case3 text htext =>
    rw [emojiJoins.eq_2 _ _ htext] at h
    cases h
    exact emojiJoins_of_no_join tables
      (hsame.no_join fun next more heq => absurd heq (htext _ next more))

/-! ### The clusters of a text -/

theorem takeEmojiJoins_append (cluster text : Text) :
    (takeEmojiJoins tables cluster text).1 ++ (takeEmojiJoins tables cluster text).2
      = cluster ++ text := by
  cases h : cluster.any isEmojiCandidate with
  | false => rw [takeEmojiJoins_of_not_any tables h]
  | true =>
    rw [takeEmojiJoins_of_any tables h, append_assoc, emojiJoins_append]

theorem takeEmojiJoins_of_sameStart {taken : Text}
    (h : takeEmojiJoins tables cluster text = (cluster ++ taken, rest))
    (hsame : SameStart rest other) :
    takeEmojiJoins tables cluster (taken ++ other) = (cluster ++ taken, other) := by
  cases hany : cluster.any isEmojiCandidate with
  | false =>
    rw [takeEmojiJoins_of_not_any tables hany] at h ⊢
    obtain ⟨htaken, _⟩ := Prod.mk.inj h
    obtain rfl : taken = [] := self_eq_append_right.1 htaken
    rw [List.append_nil, nil_append]
  | true =>
    rw [takeEmojiJoins_of_any tables hany] at h ⊢
    obtain ⟨htaken, hrest⟩ := Prod.mk.inj h
    rw [emojiJoins_of_sameStart tables (Prod.ext (append_cancel_left htaken) hrest) hsame]

theorem takeCluster_of_not_region (h : isRegionalIndicator character = false) (rest : Text) :
    takeCluster tables (character :: rest)
      = takeEmojiJoins tables
          (character :: (takeClusterExtensions tables (isEmojiCandidate character) rest).1)
          (takeClusterExtensions tables (isEmojiCandidate character) rest).2 := by
  rw [takeCluster, h]
  rfl

theorem takeCluster_of_region_pair {next : Char} {remaining : Text}
    (h : isRegionalIndicator character = true) (hnext : isRegionalIndicator next = true)
    (htaken : takeClusterExtensions tables true rest = (extensions, next :: remaining)) :
    takeCluster tables (character :: rest)
      = (character :: extensions ++ next :: (takeClusterExtensions tables true remaining).1,
          (takeClusterExtensions tables true remaining).2) := by
  rw [takeCluster, if_pos h, htaken]
  dsimp only
  rw [if_pos hnext]

theorem takeCluster_of_region_alone {remaining : Text} (h : isRegionalIndicator character = true)
    (htaken : takeClusterExtensions tables true rest = (extensions, remaining))
    (hnext : ∀ next ∈ remaining.head?, isRegionalIndicator next = false) :
    takeCluster tables (character :: rest) = (character :: extensions, remaining) := by
  rw [takeCluster, if_pos h, htaken]
  cases remaining with
  | nil => rfl
  | cons next remaining =>
    dsimp only
    rw [hnext next rfl]
    rfl

/-- The three ways in which a cluster is taken. -/
theorem takeCluster_cases (character : Char) (rest : Text) :
    isRegionalIndicator character = false ∨
      (∃ extensions next remaining, isRegionalIndicator character = true ∧
        isRegionalIndicator next = true ∧
        takeClusterExtensions tables true rest = (extensions, next :: remaining)) ∨
      ∃ extensions remaining, isRegionalIndicator character = true ∧
        takeClusterExtensions tables true rest = (extensions, remaining) ∧
        ∀ next ∈ remaining.head?, isRegionalIndicator next = false := by
  cases hregion : isRegionalIndicator character with
  | false => exact Or.inl rfl
  | true =>
    rcases htaken : takeClusterExtensions tables true rest with ⟨extensions, remaining⟩
    match remaining with
    | [] => exact Or.inr (Or.inr ⟨extensions, [], rfl, rfl, fun _ hmem => absurd hmem (by simp)⟩)
    | next :: remaining =>
      cases hnext : isRegionalIndicator next with
      | true => exact Or.inr (Or.inl ⟨extensions, next, remaining, rfl, hnext, rfl⟩)
      | false =>
        refine Or.inr (Or.inr ⟨extensions, next :: remaining, rfl, rfl, fun other hmem => ?_⟩)
        obtain rfl : next = other := Option.some.inj hmem
        exact hnext

theorem takeCluster_append (text : Text) :
    (takeCluster tables text).1 ++ (takeCluster tables text).2 = text := by
  match text with
  | [] => rfl
  | character :: rest =>
    have hrest := takeClusterExtensions_append tables true rest
    obtain hregion | ⟨extensions, next, remaining, hregion, hnext, htaken⟩ |
        ⟨extensions, remaining, hregion, htaken, hnext⟩ := takeCluster_cases tables character rest
    · rw [takeCluster_of_not_region tables hregion, takeEmojiJoins_append, cons_append,
        takeClusterExtensions_append]
    · rw [takeCluster_of_region_pair tables hregion hnext htaken, append_assoc,
        cons_append, cons_append, takeClusterExtensions_append]
      rw [htaken] at hrest
      exact congrArg (character :: ·) hrest
    · rw [takeCluster_of_region_alone tables hregion htaken hnext]
      rw [htaken] at hrest
      exact congrArg (character :: ·) hrest

theorem takeEmojiJoins_fst (cluster text : Text) :
    ∃ joins, (takeEmojiJoins tables cluster text).1 = cluster ++ joins := by
  cases h : cluster.any isEmojiCandidate with
  | false => exact ⟨[], by rw [takeEmojiJoins_of_not_any tables h, List.append_nil]⟩
  | true => exact ⟨_, by rw [takeEmojiJoins_of_any tables h]⟩

/-- A cluster begins with the first character. -/
theorem takeCluster_cons (character : Char) (rest : Text) :
    ∃ more, (takeCluster tables (character :: rest)).1 = character :: more := by
  obtain hregion | ⟨extensions, next, remaining, hregion, hnext, htaken⟩ |
      ⟨extensions, remaining, hregion, htaken, hnext⟩ := takeCluster_cases tables character rest
  · rw [takeCluster_of_not_region tables hregion]
    obtain ⟨joins, hjoins⟩ := takeEmojiJoins_fst tables _ _
    exact ⟨_, hjoins⟩
  · exact ⟨_, by rw [takeCluster_of_region_pair tables hregion hnext htaken, cons_append]⟩
  · exact ⟨_, by rw [takeCluster_of_region_alone tables hregion htaken hnext]⟩

theorem takeCluster_length (character : Char) (rest : Text) :
    (takeCluster tables (character :: rest)).2.length < (character :: rest).length := by
  obtain ⟨more, hmore⟩ := takeCluster_cons tables character rest
  have h := congrArg List.length (takeCluster_append tables (character :: rest))
  rw [length_append, hmore, length_cons] at h
  omega

def graphemeClusters : Text → List Text
  | [] => []
  | character :: rest =>
    (takeCluster tables (character :: rest)).1
      :: graphemeClusters (takeCluster tables (character :: rest)).2
termination_by text => text.length
decreasing_by exact takeCluster_length tables character rest

theorem graphemeClusters_flatten (text : Text) : (graphemeClusters tables text).flatten = text := by
  induction text using graphemeClusters.induct tables with
  | case1 => rw [graphemeClusters, flatten_nil]
  | case2 character rest ih =>
    rw [graphemeClusters, flatten_cons, ih, takeCluster_append]

theorem graphemeClusters_ne_nil (h : cluster ∈ graphemeClusters tables text) : cluster ≠ [] := by
  induction text using graphemeClusters.induct tables with
  | case1 =>
    rw [graphemeClusters] at h
    exact absurd h not_mem_nil
  | case2 character rest ih =>
    rw [graphemeClusters] at h
    obtain rfl | hmem := mem_cons.1 h
    · obtain ⟨more, hmore⟩ := takeCluster_cons tables character rest
      rw [hmore]
      exact cons_ne_nil _ _
    · exact ih hmem

/-- A cluster is the same in front of a text that cannot be told apart. -/
theorem takeCluster_of_sameStart {more : Text}
    (h : takeCluster tables (character :: text) = (character :: more, rest))
    (hsame : SameStart rest other) :
    takeCluster tables (character :: (more ++ other)) = (character :: more, other) := by
  obtain hregion | ⟨extensions, next, remaining, hregion, hnext, htaken⟩ |
      ⟨extensions, remaining, hregion, htaken, hnext⟩ := takeCluster_cases tables character text
  · rw [takeCluster_of_not_region tables hregion] at h ⊢
    rcases htaken : takeClusterExtensions tables (isEmojiCandidate character) text
      with ⟨extensions, remaining⟩
    rw [htaken] at h
    dsimp only at h
    obtain ⟨joins, hjoins⟩ := takeEmojiJoins_fst tables (character :: extensions) remaining
    have hmore : more = extensions ++ joins := by
      rw [h] at hjoins
      exact (List.cons.inj hjoins).2
    have hremaining : remaining = joins ++ rest := by
      have happend := takeEmojiJoins_append tables (character :: extensions) remaining
      rw [hjoins, h, append_assoc] at happend
      exact (append_cancel_left happend).symm
    have hext := takeClusterExtensions_of_sameStart tables htaken
      (hremaining ▸ hsame.append_left joins)
    subst hmore
    rw [append_assoc, hext]
    exact takeEmojiJoins_of_sameStart tables h hsame
  · rw [takeCluster_of_region_pair tables hregion hnext htaken] at h
    rcases hagain : takeClusterExtensions tables true remaining with ⟨nextExtensions, afterNext⟩
    rw [hagain, cons_append] at h
    obtain ⟨hmore, rfl⟩ := Prod.mk.inj h
    obtain rfl := (List.cons.inj hmore).2
    have hremaining : next :: remaining = (next :: nextExtensions) ++ afterNext := by
      have happend := takeClusterExtensions_append tables true remaining
      rw [hagain] at happend
      exact congrArg (next :: ·) happend.symm
    have hfirst : takeClusterExtensions tables true (extensions ++ next :: (nextExtensions ++ other))
        = (extensions, next :: (nextExtensions ++ other)) :=
      takeClusterExtensions_of_sameStart tables htaken
        (hremaining ▸ hsame.append_left (next :: nextExtensions))
    have hsecond := takeClusterExtensions_of_sameStart tables hagain hsame
    rw [append_assoc, cons_append,
      takeCluster_of_region_pair tables hregion hnext hfirst, hsecond, cons_append]
  · rw [takeCluster_of_region_alone tables hregion htaken hnext] at h
    obtain ⟨hmore, rfl⟩ := Prod.mk.inj h
    obtain rfl := (List.cons.inj hmore).2
    exact takeCluster_of_region_alone tables hregion
      (takeClusterExtensions_of_sameStart tables htaken hsame) (hsame.head_not hnext)

variable {clusters behind : List Text}

/-- The clusters behind the first ones are the clusters of what is behind them. -/
theorem graphemeClusters_of_append
    (h : graphemeClusters tables text = clusters ++ behind) :
    graphemeClusters tables behind.flatten = behind := by
  induction clusters generalizing text with
  | nil =>
    rw [nil_append] at h
    rw [← h, graphemeClusters_flatten]
  | cons cluster clusters ih =>
    cases text with
    | nil => simp [graphemeClusters] at h
    | cons character rest =>
      rw [graphemeClusters, cons_append] at h
      exact ih (List.cons.inj h).2

/-- The clusters in front of a text are the same in front of one that cannot be told apart. -/
theorem graphemeClusters_append_of_sameStart
    (h : graphemeClusters tables text = clusters ++ behind) (hsame : SameStart behind.flatten other) :
    graphemeClusters tables (clusters.flatten ++ other)
      = clusters ++ graphemeClusters tables other := by
  induction clusters generalizing text with
  | nil => rfl
  | cons cluster clusters ih =>
    cases text with
    | nil => simp [graphemeClusters] at h
    | cons character rest =>
      rw [graphemeClusters, cons_append] at h
      obtain ⟨hcluster, hrest⟩ := List.cons.inj h
      obtain ⟨more, hmore⟩ := takeCluster_cons tables character rest
      have hremaining : (takeCluster tables (character :: rest)).2
          = clusters.flatten ++ behind.flatten := by
        rw [← flatten_append, ← hrest, graphemeClusters_flatten]
      have htake := takeCluster_of_sameStart tables (Prod.ext hmore hremaining)
        (hsame.append_left clusters.flatten)
      rw [flatten_cons, ← hcluster, hmore, append_assoc, cons_append,
        graphemeClusters, htake, ih hrest, cons_append]

/-! ### Widths -/

def graphemeCellWidth (cluster : Text) : ℕ :=
  if cluster.isEmpty then 0
  else if isRegionalIndicatorPair cluster then 2
  else if isKeycapCluster cluster then 2
  else if cluster.any isEmojiModifier then 2
  else if hasEmojiTagSequence cluster then 2
  else if cluster.contains '\uFE0F' && cluster.any isEmojiCandidate then 2
  else if cluster.contains zeroWidthJoiner && cluster.any isEmojiCandidate then 2
  else (cluster.map (charCellWidth tables)).sum

/-! ### What is shown -/

def displayTerminalChar (character : Char) : Text :=
  let code := character.toNat
  if character = '\n' then ['\n']
  else if character = '\r' then ['↵']
  else if character = '\t' then ['⇥']
  else if isVariationSelector character then []
  else if code ≤ 0x1F then [Char.ofNat (0x2400 + code)]
  else if code = 0x7F then ['␡']
  else if 0x80 ≤ code ∧ code ≤ 0x9F then [replacementCharacter]
  else if tables.generalCategory character = .format then [replacementCharacter]
  else [character]

def displayEmojiClusterChar (character : Char) : Text :=
  if character = zeroWidthJoiner ∨ isEmojiTag character = true
      ∨ isVariationSelector character = true then [character]
  else displayTerminalChar tables character

def displayInvalidKeycapChar (character : Char) : Text :=
  if character = enclosingKeycap then [replacementCharacter]
  else if isVariationSelector character then []
  else displayTerminalChar tables character

def displayOrdinaryClusterChar (character : Char) : Text :=
  if isVariationSelector character then [] else displayTerminalChar tables character

/-- The full width form of the first ASCII character that is printed. -/
def fullWidthAscii (cluster : Text) : Option Char :=
  (cluster.find? fun character => '!' ≤ character && character ≤ '~').map fun character =>
    Char.ofNat (character.toNat + 0xFEE0)

def fallbackGlyph (targetWidth : ℕ) : Text :=
  if targetWidth = 2 then ['？'] else if targetWidth = 0 then [] else [replacementCharacter]

def compatibleFallback (cluster : Text) : Text :=
  let targetWidth := graphemeCellWidth tables cluster
  match cluster.find? fun character => tables.safeWcwidth character == targetWidth
      && displayTerminalChar tables character == [character] with
  | some character => [character]
  | none =>
    match fullWidthAscii cluster with
    | some character =>
      if tables.safeWcwidth character = targetWidth then [character]
      else fallbackGlyph targetWidth
    | none => fallbackGlyph targetWidth

def preserved (cluster : Text) : Text :=
  if cluster.contains enclosingKeycap && !isKeycapCluster cluster then
    cluster.flatMap (displayInvalidKeycapChar tables)
  else if 1 < cluster.length ∧ cluster.any isEmojiCandidate = true then
    cluster.flatMap (displayEmojiClusterChar tables)
  else cluster.flatMap (displayOrdinaryClusterChar tables)

def displayTerminalCluster (cluster : Text) : Text :=
  if needsVtyCompatibleWidth cluster = true
      ∧ tables.safeWctwidth (preserved tables cluster) ≠ graphemeCellWidth tables cluster then
    compatibleFallback tables cluster
  else preserved tables cluster

def displayTerminalText (text : Text) : Text :=
  if text.all isPrintableAscii then text
  else (graphemeClusters tables text).flatMap (displayTerminalCluster tables)

def splitAtSuffix (text held : Text) : Text × Text :=
  (text.take (text.length - held.length), held)

/-- Hold a trailing cluster back that the next text may join. -/
def splitTerminalGraphemeSuffix (text : Text) : Text × Text :=
  match (graphemeClusters tables text).reverse with
  | [] => ([], [])
  | lastCluster :: previous =>
    match lastCluster == [zeroWidthJoiner], previous with
    | true, previousCluster :: _ => splitAtSuffix text (previousCluster ++ lastCluster)
    | _, _ =>
      if clusterMayExtend lastCluster then splitAtSuffix text lastCluster else (text, [])

/-! ### The cut -/

theorem splitAtSuffix_append (start held : Text) :
    splitAtSuffix (start ++ held) held = (start, held) := by
  rw [splitAtSuffix, length_append, Nat.add_sub_cancel, take_left]

/-- What is held back are the last clusters, and nothing in front tells them from what they may
become; where nothing is held back the last cluster cannot grow. -/
theorem splitTerminalGraphemeSuffix_cases (text : Text) :
    (∃ clusters behind, graphemeClusters tables text = clusters ++ behind ∧
        splitTerminalGraphemeSuffix tables text = (clusters.flatten, behind.flatten) ∧
        ∀ more, SameStart behind.flatten (behind.flatten ++ more)) ∨
      (text = [] ∧ splitTerminalGraphemeSuffix tables text = ([], [])) ∨
      ∃ clusters lastCluster, graphemeClusters tables text = clusters ++ [lastCluster] ∧
        splitTerminalGraphemeSuffix tables text = (text, []) ∧
        clusterMayExtend lastCluster = false ∧
        (lastCluster = [zeroWidthJoiner] → clusters = []) := by
  have hflatten := graphemeClusters_flatten tables text
  have hnonempty : ∀ cluster ∈ graphemeClusters tables text, cluster ≠ [] :=
    fun _ => graphemeClusters_ne_nil tables
  unfold splitTerminalGraphemeSuffix
  split
  · rename_i hreverse
    rw [reverse_eq_nil_iff] at hreverse
    rw [hreverse] at hflatten
    exact Or.inr (Or.inl ⟨hflatten.symm, rfl⟩)
  · rename_i lastCluster others hreverse
    rw [reverse_eq_cons_iff] at hreverse
    rw [hreverse] at hflatten hnonempty
    split
    · rename_i previousCluster earlier hlast
      obtain rfl : lastCluster = [zeroWidthJoiner] := beq_iff_eq.1 hlast
      rw [reverse_cons, append_assoc] at hreverse hflatten
      have htext : text
          = earlier.reverse.flatten ++ (previousCluster ++ [zeroWidthJoiner]) := by
        rw [← hflatten]
        simp
      refine Or.inl ⟨earlier.reverse, [previousCluster] ++ [[zeroWidthJoiner]], hreverse, ?_, ?_⟩
      · rw [htext, splitAtSuffix_append]
        simp
      · obtain ⟨head, tail, rfl⟩ := exists_cons_of_ne_nil (hnonempty previousCluster (by simp))
        refine fun more => SameStart.append_right (fun _ => ?_) more
        simp
    · rename_i others _ _ hnot
      rw [flatten_append] at hflatten
      cases hextend : clusterMayExtend lastCluster with
      | true =>
        refine Or.inl ⟨others.reverse, [lastCluster], hreverse, ?_, fun more => ?_⟩
        · rw [if_pos rfl, ← hflatten, flatten_singleton, splitAtSuffix_append]
        · rw [flatten_singleton]
          obtain ⟨head, tail, rfl⟩ := exists_cons_of_ne_nil (hnonempty lastCluster (by simp))
          refine SameStart.append_right ?_ more
          rintro rfl rfl
          exact absurd hextend (by decide)
      | false =>
        refine Or.inr (Or.inr ⟨others.reverse, lastCluster, hreverse, rfl, hextend, fun hlast => ?_⟩)
        cases others with
        | nil => rfl
        | cons previousCluster earlier =>
          exact (hnot previousCluster earlier (beq_iff_eq.2 hlast) rfl).elim

theorem splitTerminalGraphemeSuffix_append (text : Text) :
    (splitTerminalGraphemeSuffix tables text).1 ++ (splitTerminalGraphemeSuffix tables text).2
      = text := by
  obtain ⟨clusters, behind, hclusters, hsplit, _⟩ | ⟨rfl, hsplit⟩ | ⟨_, _, _, hsplit, _⟩ :=
    splitTerminalGraphemeSuffix_cases tables text
  · rw [hsplit, ← flatten_append, ← hclusters, graphemeClusters_flatten]
  · rw [hsplit, List.append_nil]
  · rw [hsplit, List.append_nil]

/-- The clusters of a text, each as it is shown. -/
def shownClusters (text : Text) : Text :=
  (graphemeClusters tables text).flatMap (displayTerminalCluster tables)

@[simp] theorem shownClusters_nil : shownClusters tables [] = [] := by
  rw [shownClusters, graphemeClusters, flatMap_nil]

theorem shownClusters_append
    (h : graphemeClusters tables text = clusters ++ behind) (hsame : SameStart behind.flatten other) :
    shownClusters tables (clusters.flatten ++ other)
      = shownClusters tables clusters.flatten ++ shownClusters tables other := by
  have hclusters : graphemeClusters tables clusters.flatten = clusters := by
    have hnil : SameStart behind.flatten [] := by cases behind.flatten <;> trivial
    have hempty := graphemeClusters_append_of_sameStart tables h hnil
    rwa [graphemeClusters, List.append_nil, List.append_nil] at hempty
  rw [shownClusters, graphemeClusters_append_of_sameStart tables h hsame, flatMap_append,
    shownClusters, hclusters, shownClusters]

/-! ### Clusters that cannot grow -/

/-- A character of a cluster without an emoji and without a keycap. -/
def displayPlainChar (character : Char) : Text :=
  if character = enclosingKeycap then [replacementCharacter]
  else displayOrdinaryClusterChar tables character

theorem displayTerminalCluster_of_not_mayExtend (h : clusterMayExtend cluster = false) :
    displayTerminalCluster tables cluster = cluster.flatMap (displayPlainChar tables) := by
  obtain ⟨hemoji, hkeycap⟩ := clusterMayExtend_eq_false_iff.1 h
  have hnot : isKeycapCluster cluster = false := by rw [isKeycapCluster, hkeycap, Bool.and_false]
  rw [displayTerminalCluster, if_neg (by simp [needsVtyCompatibleWidth, hemoji, hnot]), preserved,
    hnot, hemoji]
  cases hcontains : cluster.contains enclosingKeycap with
  | true =>
    rw [Bool.not_false, Bool.and_self, if_pos rfl]
    rfl
  | false =>
    rw [Bool.false_and, if_neg Bool.false_ne_true, if_neg fun hboth => Bool.false_ne_true hboth.2]
    refine flatMap_congr fun character hmem => ?_
    rw [displayPlainChar, if_neg]
    rintro rfl
    rw [contains_eq_mem, decide_eq_false_iff_not] at hcontains
    exact hcontains hmem

theorem clusterMayExtend_append (cluster other : Text) :
    clusterMayExtend (cluster ++ other) = (clusterMayExtend cluster || clusterMayExtend other) := by
  rw [clusterMayExtend, clusterMayExtend, clusterMayExtend, any_append, any_append]
  cases cluster.any isEmojiCandidate <;> cases cluster.any isKeycapBase <;> simp

section Standard

variable {tables} (hstandard : tables.Standard)

include hstandard

theorem clusterMayExtend_of_marks {marks : Text}
    (h : ∀ character ∈ marks, isExtension tables false character = true) :
    clusterMayExtend marks = false := by
  have hmark : ∀ character ∈ marks, isCombiningMark tables character = true := by
    intro character hmem
    simpa [isExtension] using h character hmem
  rw [clusterMayExtend_eq_false_iff, List.any_eq_false, List.any_eq_false]
  refine ⟨fun character hmem => ?_, fun character hmem hbase => ?_⟩
  · rw [hstandard.mark_not_candidate character (hmark character hmem)]
    exact Bool.false_ne_true
  · have hnot := hstandard.printable_not_mark character (isPrintableAscii_of_isKeycapBase hbase)
    exact Bool.false_ne_true (hnot.symm.trans (hmark character hmem))

/-- A cluster that begins with no emoji is its base with the marks behind it. -/
theorem takeCluster_of_not_candidate {character : Char}
    (h : isEmojiCandidate character = false) (rest : Text) :
    takeCluster tables (character :: rest)
      = (character :: (takeClusterExtensions tables false rest).1,
          (takeClusterExtensions tables false rest).2) := by
  have hregion : isRegionalIndicator character = false :=
    Bool.eq_false_iff.2 fun hregion =>
      Bool.false_ne_true (h.symm.trans (isEmojiCandidate_of_isRegionalIndicator hregion))
  have hmarks := (clusterMayExtend_eq_false_iff.1 (clusterMayExtend_of_marks hstandard
    (takeClusterExtensions_spec tables false rest).1)).1
  rw [takeCluster_of_not_region tables hregion, h, takeEmojiJoins_of_not_any]
  rw [any_cons, h, hmarks, Bool.or_false]

/-- Combining marks behind a cluster that cannot grow are shown as they are shown alone. -/
theorem shownClusters_append_of_not_mayExtend {cluster : Text}
    (hcluster : graphemeClusters tables cluster = [cluster])
    (hextend : clusterMayExtend cluster = false) (text : Text) :
    shownClusters tables (cluster ++ text)
      = shownClusters tables cluster ++ shownClusters tables text := by
  obtain ⟨character, more, rfl⟩ : ∃ character more, cluster = character :: more := by
    cases cluster with
    | nil => exact absurd hcluster (by simp [graphemeClusters])
    | cons character more => exact ⟨character, more, rfl⟩
  have hemoji : isEmojiCandidate character = false := by
    have hany := (clusterMayExtend_eq_false_iff.1 hextend).1
    rw [any_cons, Bool.or_eq_false_iff] at hany
    exact hany.1
  rcases htaken : takeClusterExtensions tables false text with ⟨marks, rest⟩
  have htext : marks ++ rest = text := by
    have happend := takeClusterExtensions_append tables false text
    rwa [htaken] at happend
  have hspec := takeClusterExtensions_spec tables false text
  rw [htaken] at hspec
  have hmore : ∀ character ∈ more, isExtension tables false character = true := by
    rw [graphemeClusters, takeCluster_of_not_candidate hstandard hemoji] at hcluster
    have hfirst := (List.cons.inj (List.cons.inj hcluster).1).2
    rw [← hfirst]
    exact (takeClusterExtensions_spec tables false more).1
  have hgrown : graphemeClusters tables (character :: more ++ text)
      = (character :: more ++ marks) :: graphemeClusters tables rest := by
    have hext : takeClusterExtensions tables false (more ++ marks ++ rest)
        = (more ++ marks, rest) :=
      takeClusterExtensions_eq tables
        (fun character hmem => (mem_append.1 hmem).elim (hmore character)
          (hspec.1 character)) hspec.2
    rw [← htext, cons_append, ← append_assoc, graphemeClusters,
      takeCluster_of_not_candidate hstandard hemoji, hext, cons_append]
  have hmarks := clusterMayExtend_of_marks hstandard hspec.1
  have halone : shownClusters tables text
      = marks.flatMap (displayPlainChar tables) ++ shownClusters tables rest := by
    cases marks with
    | nil => rw [← htext, nil_append, flatMap_nil, nil_append]
    | cons mark marks =>
      have hmark : isEmojiCandidate mark = false := by
        have hany := (clusterMayExtend_eq_false_iff.1 hmarks).1
        rw [any_cons, Bool.or_eq_false_iff] at hany
        exact hany.1
      have hext : takeClusterExtensions tables false (marks ++ rest) = (marks, rest) :=
        takeClusterExtensions_eq tables
          (fun character hmem => hspec.1 character (mem_cons_of_mem _ hmem)) hspec.2
      rw [shownClusters, ← htext, cons_append, graphemeClusters,
        takeCluster_of_not_candidate hstandard hmark, hext, flatMap_cons,
        displayTerminalCluster_of_not_mayExtend tables hmarks, shownClusters]
  rw [halone, shownClusters, hgrown, flatMap_cons, shownClusters, hcluster,
    flatMap_singleton, displayTerminalCluster_of_not_mayExtend tables hextend,
    displayTerminalCluster_of_not_mayExtend tables
      (by rw [clusterMayExtend_append, hextend, hmarks, Bool.or_false]),
    flatMap_append, append_assoc, shownClusters]

/-! ### Printable ASCII -/

theorem displayTerminalChar_of_printable {character : Char}
    (h : isPrintableAscii character = true) :
    isVariationSelector character = false ∧ displayTerminalChar tables character = [character] := by
  have hcode := toNat_of_isPrintableAscii h
  have hselector : isVariationSelector character = false := by
    simp only [isVariationSelector, Bool.or_eq_false_iff, Bool.and_eq_false_iff,
      decide_eq_false_iff_not]
    omega
  have hne : ∀ control : Char, control.toNat < 32 → character ≠ control := by
    rintro control hcontrol rfl
    omega
  refine ⟨hselector, ?_⟩
  rw [displayTerminalChar, if_neg (hne _ (by decide)), if_neg (hne _ (by decide)),
    if_neg (hne _ (by decide)), hselector, if_neg Bool.false_ne_true, if_neg (by omega),
    if_neg (by omega), if_neg (by omega), if_neg (hstandard.printable_not_format character h)]

theorem displayTerminalCluster_of_printable {character : Char}
    (h : isPrintableAscii character = true) :
    displayTerminalCluster tables [character] = [character] := by
  obtain ⟨hselector, hshown⟩ := displayTerminalChar_of_printable hstandard h
  have hcandidate := isEmojiCandidate_of_isPrintableAscii h
  have hne : enclosingKeycap ≠ character := by
    rintro rfl
    exact absurd h (by decide)
  have hcontains : List.contains [character] enclosingKeycap = false := by
    simpa using hne
  rw [displayTerminalCluster, if_neg, preserved, hcontains, Bool.false_and,
    if_neg Bool.false_ne_true, if_neg fun hlong => absurd hlong.1 (by simp),
    flatMap_singleton, displayOrdinaryClusterChar, hselector, if_neg Bool.false_ne_true, hshown]
  rintro ⟨hneeds, _⟩
  rw [needsVtyCompatibleWidth, isKeycapCluster, hcontains, any_cons, hcandidate] at hneeds
  exact absurd hneeds (by simp)

theorem graphemeClusters_of_printable {text : Text} (h : text.all isPrintableAscii = true) :
    graphemeClusters tables text = text.map fun character => [character] := by
  induction text with
  | nil => rw [graphemeClusters, map_nil]
  | cons character rest ih =>
    rw [all_cons, Bool.and_eq_true] at h
    have hext : takeClusterExtensions tables false ([] ++ rest) = ([], rest) := by
      refine takeClusterExtensions_eq tables (fun _ hmem => absurd hmem not_mem_nil) ?_
      intro next hmem
      cases rest with
      | nil => exact absurd hmem (by simp)
      | cons head rest =>
        obtain rfl : head = next := Option.some.inj hmem
        rw [all_cons, Bool.and_eq_true] at h
        rw [isExtension, hstandard.printable_not_mark head h.2.1, Bool.false_or, Bool.false_and]
    rw [nil_append] at hext
    rw [graphemeClusters, takeCluster_of_not_candidate hstandard
        (isEmojiCandidate_of_isPrintableAscii h.1), hext, ih h.2, map_cons]

theorem shownClusters_of_printable {text : Text} (h : text.all isPrintableAscii = true) :
    shownClusters tables text = text := by
  rw [shownClusters, graphemeClusters_of_printable hstandard h, flatMap_map]
  calc text.flatMap (fun character => displayTerminalCluster tables [character])
      = text.flatMap (fun character => [character]) := by
        refine flatMap_congr fun character hmem => ?_
        exact displayTerminalCluster_of_printable hstandard (List.all_eq_true.1 h character hmem)
    _ = text := by rw [flatMap_singleton']

/-- The short way for printable ASCII shows the same. -/
theorem displayTerminalText_eq (text : Text) :
    displayTerminalText tables text = shownClusters tables text := by
  rw [displayTerminalText]
  split
  · rename_i hprintable
    exact (shownClusters_of_printable hstandard hprintable).symm
  · rfl

end Standard

/-- **A cut does not change what is shown**, whatever text comes next. -/
theorem displayTerminalText_splitTerminalGraphemeSuffix (hstandard : tables.Standard)
    (text more start held : Text)
    (h : splitTerminalGraphemeSuffix tables text = (start, held)) :
    start ++ held = text ∧
      displayTerminalText tables (text ++ more)
        = displayTerminalText tables start ++ displayTerminalText tables (held ++ more) := by
  have happend := splitTerminalGraphemeSuffix_append tables text
  rw [h] at happend
  refine ⟨happend, ?_⟩
  rw [displayTerminalText_eq hstandard, displayTerminalText_eq hstandard,
    displayTerminalText_eq hstandard, ← happend]
  obtain ⟨clusters, behind, hclusters, hsplit, hsame⟩ | ⟨rfl, hsplit⟩ |
      ⟨clusters, lastCluster, hclusters, hsplit, hextend, hjoiner⟩ :=
    splitTerminalGraphemeSuffix_cases tables text
  · obtain ⟨rfl, rfl⟩ := Prod.mk.inj (h.symm.trans hsplit)
    rw [append_assoc, shownClusters_append tables hclusters (hsame more)]
  · obtain ⟨rfl, rfl⟩ := Prod.mk.inj (h.symm.trans hsplit)
    simp only [nil_append, shownClusters_nil]
  · obtain ⟨rfl, rfl⟩ := Prod.mk.inj (h.symm.trans hsplit)
    have halone := graphemeClusters_of_append tables hclusters
    rw [flatten_singleton] at halone
    have hgrow := shownClusters_append_of_not_mayExtend hstandard halone hextend more
    have hstart : start = clusters.flatten ++ lastCluster := by
      rw [← graphemeClusters_flatten tables start, hclusters, flatten_append,
        flatten_singleton]
    have hcut : ∀ other, shownClusters tables (clusters.flatten ++ (lastCluster ++ other))
        = shownClusters tables clusters.flatten ++ shownClusters tables (lastCluster ++ other) := by
      intro other
      cases lastCluster with
      | nil => exact absurd halone (by simp [graphemeClusters])
      | cons head tail =>
        by_cases hlast : head :: tail = [zeroWidthJoiner]
        · rw [hjoiner hlast, flatten_nil, nil_append, shownClusters_nil, nil_append]
        · refine shownClusters_append tables hclusters ?_
          rw [flatten_singleton]
          refine SameStart.append_right ?_ other
          rintro rfl rfl
          exact hlast rfl
    have hwhole := hcut []
    rw [List.append_nil] at hwhole
    rw [List.append_nil, nil_append, hstart, append_assoc, hcut more, hgrow, hwhole,
      append_assoc]

end Tables

/-- The categories and widths of letters, digits, controls and the marks of one block. -/
def latinTables : WidthTables where
  generalCategory character :=
    if character.isLower then .lowercaseLetter
    else if character.isUpper then .uppercaseLetter
    else if character.isDigit then .decimalNumber
    else if character.toNat < 0x20 ∨ 0x7F ≤ character.toNat ∧ character.toNat ≤ 0x9F then .control
    else if 0x300 ≤ character.toNat ∧ character.toNat ≤ 0x36F then .nonSpacingMark
    else if character = zeroWidthJoiner then .format
    else .otherSymbol
  safeWcwidth character :=
    if 0x300 ≤ character.toNat ∧ character.toNat ≤ 0x36F then 0 else 1
  safeWctwidth text :=
    (text.map fun character : Char =>
      if 0x300 ≤ character.toNat ∧ character.toNat ≤ 0x36F then 0 else 1).sum

theorem latinTables_mark (h : isCombiningMark latinTables character = true) :
    0x300 ≤ character.toNat ∧ character.toNat ≤ 0x36F := by
  by_contra hnot
  have hcategory : latinTables.generalCategory character ∉
      [GeneralCategory.nonSpacingMark, .spacingCombiningMark, .enclosingMark] := by
    simp only [latinTables, if_neg hnot]
    split_ifs <;> decide
  exact hcategory (contains_iff_mem.1 h)

theorem latinTables_standard : latinTables.Standard where
  mark_not_candidate character h := by
    have hcode := latinTables_mark h
    simp only [isEmojiCandidate, Bool.or_eq_false_iff, Bool.and_eq_false_iff,
      decide_eq_false_iff_not, beq_eq_false_iff_ne]
    omega
  printable_not_mark character h := by
    have hcode := toNat_of_isPrintableAscii h
    refine Bool.eq_false_iff.2 fun hmark => ?_
    have hblock := latinTables_mark hmark
    omega
  printable_not_format character h := by
    have hne : character ≠ zeroWidthJoiner := by
      rintro rfl
      exact absurd h (by decide)
    simp only [latinTables, if_neg hne]
    split_ifs <;> decide

theorem displayTerminalText_splitTerminalGraphemeSuffix_keycap :
    (['a'] : Text) ++ ['1'] = ['a', '1'] ∧
      displayTerminalText latinTables (['a', '1'] ++ ['\u0301', '\n'])
        = displayTerminalText latinTables ['a']
          ++ displayTerminalText latinTables (['1'] ++ ['\u0301', '\n']) :=
  displayTerminalText_splitTerminalGraphemeSuffix latinTables latinTables_standard
    ['a', '1'] ['\u0301', '\n'] ['a'] ['1'] (by
      rw [splitTerminalGraphemeSuffix,
        graphemeClusters_of_printable latinTables_standard (by decide)]
      rfl)

end TextWidth

end HaskellAgent
