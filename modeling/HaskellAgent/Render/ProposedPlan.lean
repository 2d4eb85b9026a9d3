import HaskellAgent.Render.PlanStream

/-!
# The plan that is to be approved

The plan that the user is asked to approve is looked up in the whole text of the assistant, and so
may be another than the one that the stream showed: a tag is found wherever it stands.
-/

open List

namespace HaskellAgent
namespace PlanStream

open JsonText ProposedPlanSegment

def extractProposedPlan (text : Text) : Option Text :=
  let afterOpen := (breakOn openTag text).2
  if afterOpen.isEmpty then none
  else
    let rest := afterOpen.drop openTag.length
    if (breakOn closeTag rest).2.isEmpty then none else some (strip (breakOn closeTag rest).1)

/-- The text of a plan up to its end. -/
def planBody : List ProposedPlanSegment → Option Text
  | proposedPlanEnd :: _ => some []
  | proposedPlanDelta text :: segments => (planBody segments).map (text ++ ·)
  | _ => none

def firstPlan : List ProposedPlanSegment → Option Text
  | [] => none
  | proposedPlanStart :: segments => planBody segments
  | _ :: segments => firstPlan segments

/-- The first plan of the stream, if a tag closes it and not the end of the text. -/
def streamedPlan (text : Text) : Option Text :=
  let fed := feedProposedPlanStream initialProposedPlanStream text
  (firstPlan (fed.2 ++ (lastLine fed.1).2)).map strip

/-! ### Texts with tags alone on their lines -/

def unlines (lines : List Text) : Text := lines.flatMap (· ++ ['\n'])

def Blank (text : Text) : Prop := ∀ c ∈ text, isSpace c = true ∧ c ≠ '\n'

structure TagsAlone (text : Text) : Prop where
  split : ∃ (outer body : List Text) (blank₁ blank₂ blank₃ after : Text),
    text = unlines outer ++ (blank₁ ++ openTag ++ (blank₂ ++
      '\n' :: (unlines body ++ (blank₃ ++ closeTag ++ after)))) ∧
    (∀ line ∈ outer ++ body, '\n' ∉ line) ∧ Blank blank₁ ∧ Blank blank₂ ∧ Blank blank₃ ∧
    ¬ openTag <:+: unlines outer ++ blank₁ ∧
    ¬ closeTag <:+: blank₂ ++ '\n' :: (unlines body ++ blank₃) ∧
    ((∃ blank₄ rest, after = blank₄ ++ '\n' :: rest ∧ Blank blank₄) ∨
      Blank after ∧ couldBecomeControlLine true (blank₃ ++ closeTag ++ after) = true)

theorem Blank.isSpace {text : Text} (h : Blank text) : ∀ c ∈ text, isSpace c = true :=
  fun c hc => (h c hc).1

theorem Blank.not_mem {text : Text} (h : Blank text) : '\n' ∉ text := fun hmem => (h _ hmem).2 rfl

/-- Blanks around a text do not matter. -/
theorem strip_append {lead last : Text} (hlead : ∀ c ∈ lead, isSpace c = true)
    (hlast : ∀ c ∈ last, isSpace c = true) (text : Text) :
    strip (lead ++ text ++ last) = strip text := by
  rw [strip, strip, List.trim, List.trim, append_assoc, dropWhile_append_of_pos hlead,
    dropWhile_append]
  split_ifs with hempty
  · rw [List.isEmpty_iff.mp hempty, dropWhile_eq_nil_iff.mpr hlast]
  · rw [List.rdropWhile, List.rdropWhile, reverse_append,
      dropWhile_append_of_pos fun c hc => hlast c (mem_reverse.mp hc)]

theorem strip_isInfix (text : Text) : strip text <:+: text :=
  (List.rdropWhile_prefix _ _).isInfix.trans (dropWhile_suffix _).isInfix

theorem strip_line {tag blank₁ blank₂ : Text} (h₁ : Blank blank₁) (h₂ : Blank blank₂)
    (htag : strip tag = tag) : strip (blank₁ ++ tag ++ blank₂ ++ ['\n']) = tag := by
  rw [append_assoc, strip_append h₁.isSpace ?_, htag]
  intro c hc
  obtain hc | hc := mem_append.mp hc
  · exact h₂.isSpace c hc
  · rw [mem_singleton.mp hc]
    rfl

/-- A tag whose first character is not in its tail is found where it stands first. -/
theorem breakOn_first {tag a : Text} (htag : ∃ c tail, tag = c :: tail ∧ c ∉ tail)
    (ha : ¬ tag <:+: a) (b : Text) : breakOn tag (a ++ (tag ++ b)) = (a, tag ++ b) := by
  obtain ⟨c, tail, rfl, hc⟩ := htag
  induction a with
  | nil => rw [nil_append, cons_append, breakOn, if_pos]; simp
  | cons d a ih =>
    have hnot : ¬ (c :: tail).isPrefixOf (d :: (a ++ (c :: tail ++ b))) = true := by
      intro hmatch
      have hlead := isPrefixOf_iff_prefix.mp hmatch
      rw [← cons_append] at hlead
      obtain hlong | hshort := le_total (c :: tail).length (d :: a).length
      · exact ha (prefix_of_prefix_length_le hlead (prefix_append _ _) hlong).isInfix
      · obtain ⟨more, hmore⟩ :=
          prefix_of_prefix_length_le (prefix_append (d :: a) _) hlead hshort
        cases more with
        | nil => exact ha ⟨[], [], by rw [← hmore]; simp⟩
        | cons e more =>
          obtain ⟨rest, hrest⟩ := hlead
          have hsame : d :: a ++ (e :: more ++ rest) = d :: a ++ (c :: tail ++ b) := by
            rw [← append_assoc, hmore]
            exact hrest
          have he : e = c := (List.cons.inj (append_cancel_left hsame)).1
          exact hc (by rw [← (List.cons.inj hmore).2, he]; simp)
    have hrest : ¬ (c :: tail) <:+: a := fun hin => ha (hin.trans (suffix_cons d a).isInfix)
    rw [cons_append, breakOn, if_neg hnot, ih hrest]

theorem head_openTag : ∃ c tail, openTag = c :: tail ∧ c ∉ tail := ⟨'<', _, rfl, by decide⟩

theorem head_closeTag : ∃ c tail, closeTag = c :: tail ∧ c ∉ tail := ⟨'<', _, rfl, by decide⟩

/-! ### The walk of the stream -/

theorem consumeStream_unlines {inside : Bool} {lines : List Text}
    (hlines : ∀ line ∈ lines, '\n' ∉ line)
    (hstay : ∀ line ∈ lines,
      consumeLine inside (line ++ ['\n']) = (inside, textSegment inside (line ++ ['\n'])))
    (rest : Text) :
    consumeStream inside false (unlines lines ++ rest) =
      ((consumeStream inside false rest).1,
        lines.flatMap (fun line => textSegment inside (line ++ ['\n'])) ++
          (consumeStream inside false rest).2) := by
  induction lines with
  | nil => rfl
  | cons line lines ih =>
    have ih := ih (fun l hl => hlines l (.tail _ hl)) fun l hl => hstay l (.tail _ hl)
    have hshape : unlines (line :: lines) ++ rest = line ++ '\n' :: (unlines lines ++ rest) := by
      simp [unlines]
    rw [hshape, consumeStream_line (hlines line (.head _)), if_neg (by decide),
      hstay line (.head _), flatMap_cons]
    simp [ih]

/-- A line without the tag that would switch is text. -/
theorem consumeLine_without_tag {inside : Bool} {line : Text}
    (h : ¬ (if inside then closeTag else openTag) <:+: line) :
    consumeLine inside line = (inside, textSegment inside line) := by
  rw [consumeLine]
  split_ifs with hopen hclose
  · exact absurd (hopen.1 ▸ strip_isInfix line) (by simpa [hopen.2] using h)
  · exact absurd (hclose.1 ▸ strip_isInfix line) (by simpa [hclose.2] using h)
  · rfl

theorem stays_without_tag {inside : Bool} {lines : List Text} {lead last : Text}
    (h : ¬ (if inside then closeTag else openTag) <:+: lead ++ (unlines lines ++ last)) :
    ∀ line ∈ lines,
      consumeLine inside (line ++ ['\n']) = (inside, textSegment inside (line ++ ['\n'])) := by
  intro line hline
  refine consumeLine_without_tag fun hin => h (hin.trans ?_)
  obtain ⟨before, behind, rfl⟩ := append_of_mem hline
  exact ⟨lead ++ unlines before, unlines behind ++ last, by simp [unlines]⟩

theorem firstPlan_texts (lines : List Text) (segments : List ProposedPlanSegment) :
    firstPlan (lines.flatMap (fun line => textSegment false (line ++ ['\n'])) ++ segments)
      = firstPlan segments := by
  induction lines with
  | nil => rfl
  | cons line lines ih =>
    rw [flatMap_cons, append_assoc, textSegment, if_neg (by simp), if_neg (by decide)]
    exact ih

theorem planBody_deltas (lines : List Text) (segments : List ProposedPlanSegment) :
    planBody (lines.flatMap (fun line => textSegment true (line ++ ['\n'])) ++ segments)
      = (planBody segments).map (unlines lines ++ ·) := by
  induction lines with
  | nil => simp [unlines]
  | cons line lines ih =>
    rw [flatMap_cons, append_assoc, textSegment, if_neg (by simp), if_pos rfl,
      singleton_append, planBody, ih, Option.map_map]
    congr 1
    funext text
    simp [unlines]

/-- The line of the closing tag ends the plan, also when it is the last line. -/
theorem planBody_close {blank after : Text} (hblank : Blank blank)
    (hafter : (∃ blank₄ rest, after = blank₄ ++ '\n' :: rest ∧ Blank blank₄) ∨
      Blank after ∧ couldBecomeControlLine true (blank ++ closeTag ++ after) = true) :
    let fed := consumeStream true false (blank ++ closeTag ++ after)
    planBody (fed.2 ++ (lastLine fed.1).2) = some [] := by
  have htag : '\n' ∉ closeTag := by decide
  have hstrip : strip closeTag = closeTag := by decide
  have hswitch {line : Text} (h : strip line = closeTag) :
      consumeLine true line = (false, [proposedPlanEnd]) := by
    rw [consumeLine, if_neg (by simp), if_pos ⟨h, rfl⟩]
  obtain ⟨blank₄, rest, rfl, h₄⟩ | ⟨h₄, hcould⟩ := hafter
  · have hline : '\n' ∉ blank ++ closeTag ++ blank₄ := by simp [hblank.not_mem, htag, h₄.not_mem]
    rw [← append_assoc, consumeStream_line hline, if_neg (by decide),
      hswitch (strip_line hblank h₄ hstrip)]
    rfl
  · have hline : '\n' ∉ blank ++ closeTag ++ after := by simp [hblank.not_mem, htag, h₄.not_mem]
    have hlast : strip (blank ++ closeTag ++ after) = closeTag := by
      rw [strip_append hblank.isSpace h₄.isSpace, hstrip]
    rw [consumeStream_of_not_mem hline, if_pos ⟨rfl, hcould⟩]
    have hconsumed := hswitch hlast
    rw [append_assoc] at hconsumed
    simp [lastLine, hconsumed, planBody]

theorem TagsAlone.agree {text : Text} (h : TagsAlone text) :
    extractProposedPlan text = streamedPlan text := by
  obtain ⟨outer, body, blank₁, blank₂, blank₃, after, rfl, hlines, h₁, h₂, h₃, hopen, hclose,
    hafter⟩ := h.split
  have hextract : extractProposedPlan (unlines outer ++ (blank₁ ++ openTag ++ (blank₂ ++
      '\n' :: (unlines body ++ (blank₃ ++ closeTag ++ after))))) = some (strip (unlines body)) := by
    have hfirst := breakOn_first head_openTag hopen
      (blank₂ ++ '\n' :: (unlines body ++ (blank₃ ++ closeTag ++ after)))
    have hsecond := breakOn_first head_closeTag hclose after
    have hinner : strip (blank₂ ++ '\n' :: (unlines body ++ blank₃)) = strip (unlines body) := by
      have hlead : ∀ c ∈ blank₂ ++ ['\n'], isSpace c = true := by
        intro c hc
        obtain hc | hc := mem_append.mp hc
        · exact h₂.isSpace c hc
        · rw [mem_singleton.mp hc]
          rfl
      simpa using strip_append hlead h₃.isSpace (unlines body)
    have hopenTag : openTag ≠ [] := by decide
    have hcloseTag : closeTag ≠ [] := by decide
    simp only [append_assoc, cons_append] at hfirst hsecond hinner ⊢
    rw [extractProposedPlan]
    simp only [hfirst, drop_left, hsecond, hinner]
    simp [hopenTag, hcloseTag]
  have hopenLine : '\n' ∉ blank₁ ++ openTag ++ blank₂ := by
    have : '\n' ∉ openTag := by decide
    simp [h₁.not_mem, this, h₂.not_mem]
  have hswitch :
      consumeLine false (blank₁ ++ openTag ++ blank₂ ++ ['\n']) = (true, [proposedPlanStart]) := by
    rw [consumeLine, if_pos ⟨strip_line h₁ h₂ (by decide), rfl⟩]
  have hbody := @stays_without_tag true body (blank₂ ++ ['\n']) blank₃ (by simpa using hclose)
  have houter := @stays_without_tag false outer [] blank₁ hopen
  have hstream : streamedPlan (unlines outer ++ (blank₁ ++ openTag ++ (blank₂ ++
      '\n' :: (unlines body ++ (blank₃ ++ closeTag ++ after))))) = some (strip (unlines body)) := by
    rw [streamedPlan, feedProposedPlanStream]
    simp only [initialProposedPlanStream, nil_append]
    rw [consumeStream_unlines (fun l hl => hlines l (mem_append_left _ hl)) houter,
      ← append_assoc (blank₁ ++ openTag), consumeStream_line hopenLine, if_neg (by decide),
      hswitch]
    dsimp only
    rw [consumeStream_unlines (fun l hl => hlines l (mem_append_right _ hl)) hbody]
    dsimp only
    rw [append_assoc, firstPlan_texts, singleton_append, cons_append, firstPlan,
      append_assoc, planBody_deltas, planBody_close h₃ hafter]
    simp
  rw [hextract, hstream]

/-! ### Texts without a closed plan -/

theorem closed_of_planBody {segments : List ProposedPlanSegment} {text plan : Text}
    (h : Weaves segments text) (hplan : planBody segments = some plan) : closeTag <:+: text := by
  induction h generalizing plan with
  | proposedPlanEnd hline _ _ =>
    exact (hline ▸ strip_isInfix _).trans (prefix_append _ _).isInfix
  | proposedPlanDelta text _ ih =>
    obtain ⟨rest, hrest, -⟩ := Option.map_eq_some_iff.mp hplan
    exact (ih hrest).trans (suffix_append _ _).isInfix
  | _ => cases hplan

theorem closed_of_firstPlan {segments : List ProposedPlanSegment} {text plan : Text}
    (h : Weaves segments text) (hplan : firstPlan segments = some plan) :
    ∃ a b c, text = a ++ openTag ++ b ++ closeTag ++ c := by
  have behind {line rest : Text} (h : ∃ a b c, rest = a ++ openTag ++ b ++ closeTag ++ c) :
      ∃ a b c, line ++ rest = a ++ openTag ++ b ++ closeTag ++ c := by
    obtain ⟨a, b, c, rfl⟩ := h
    exact ⟨line ++ a, b, c, by simp⟩
  induction h with
  | nil => cases hplan
  | assistantText text _ ih | proposedPlanDelta text _ ih | proposedPlanEnd _ _ ih =>
    exact behind (ih hplan)
  | proposedPlanStart hline hrest _ =>
    obtain ⟨a, b, hopen⟩ := hline ▸ strip_isInfix _
    obtain ⟨c, d, hclose⟩ := closed_of_planBody hrest hplan
    exact ⟨a, b ++ c, d, by rw [← hopen, ← hclose]; simp⟩

/-- Both readers find the same plan in a text in which no closing tag comes behind an opening one,
and in a text whose first tags stand alone on their lines. -/
theorem extractProposedPlan_eq_streamedPlan (text : Text)
    (h : (¬ ∃ a b c, text = a ++ openTag ++ b ++ closeTag ++ c) ∨ TagsAlone text) :
    extractProposedPlan text = streamedPlan text := by
  obtain hnone | halone := h
  · have hstream : streamedPlan text = none := by
      rw [streamedPlan, Option.map_eq_none_iff, Option.eq_none_iff_forall_ne_some]
      intro plan hplan
      obtain ⟨lead, hlead, hheld⟩ := consumeStream_weaves false false ([] ++ text)
      have hlast := hlead.append (weaves_lastLine (consumeStream false false ([] ++ text)).1)
      rw [hheld] at hlast
      exact hnone (closed_of_firstPlan hlast hplan)
    rw [hstream, extractProposedPlan]
    dsimp only
    split_ifs with hopen hclose
    · rfl
    · rfl
    · refine absurd ?_ hnone
      obtain ⟨rest, hrest⟩ := (breakOn_found openTag text).resolve_left (by simpa using hopen)
      rw [← hrest, drop_left] at hclose
      obtain ⟨after, hafter⟩ := (breakOn_found closeTag rest).resolve_left (by simpa using hclose)
      have htext : text = (breakOn openTag text).1 ++ (openTag ++ rest) := by rw [hrest, breakOn_eq]
      have hbody : rest = (breakOn closeTag rest).1 ++ (closeTag ++ after) := by
        rw [hafter, breakOn_eq]
      exact ⟨(breakOn openTag text).1, (breakOn closeTag rest).1, after, htext.trans (by
        conv_lhs => rw [hbody]
        simp only [append_assoc])⟩
  · exact halone.agree

theorem extractProposedPlan_eq_streamedPlan_letter :
    extractProposedPlan (openTag ++ ('\n' :: 'x' :: '\n' :: closeTag))
      = streamedPlan (openTag ++ ('\n' :: 'x' :: '\n' :: closeTag)) :=
  extractProposedPlan_eq_streamedPlan _ (.inr ⟨[], [['x']], [], [], [], [], rfl, by decide,
    by simp [Blank], by simp [Blank], by simp [Blank], by decide, by decide,
    .inr ⟨by simp [Blank], by decide⟩⟩)

/-- A plan inside of a line. -/
theorem not_extractProposedPlan_eq : ¬ ∀ text, extractProposedPlan text = streamedPlan text := by
  intro h
  have hinline := h ('a' :: openTag ++ closeTag)
  have hline : '\n' ∉ 'a' :: openTag ++ closeTag := by decide
  have hnone : streamedPlan ('a' :: openTag ++ closeTag) = none := by
    rw [streamedPlan, feedProposedPlanStream]
    simp only [initialProposedPlanStream, nil_append, consumeStream_of_not_mem hline]
    decide
  have hsome : extractProposedPlan ('a' :: openTag ++ closeTag) = some [] := by decide
  rw [hnone, hsome] at hinline
  cases hinline

end PlanStream
end HaskellAgent
