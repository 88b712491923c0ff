import EmailTemplate.Contact
import EmailTemplate.Proofs.Template.Token
import EmailTemplate.Proofs.Text.Pattern

/-! What is found as a contact detail: it has no brace, and it has a character that is in no name of
a placeholder for contacts. -/

namespace EmailTemplate.Contact

open Text Pattern Template

/-- A plus, an eight or an at sign. -/
def isMark (c : Char) : Bool := c == '+' || c == '8' || c == '@'

/-- What every contact detail is like. -/
def Detail (s : List Char) : Prop := BraceFree s ∧ ∃ c ∈ s, isMark c = true

theorem detail_first (u v : List Char) (hu : Detail u) (hv : BraceFree v) : Detail (u ++ v) := by
  obtain ⟨hfree, c, hc, hmark⟩ := hu
  exact ⟨braceFree_both u v hfree hv, c, List.mem_append_left v hc, hmark⟩

theorem detail_second (u v : List Char) (hu : BraceFree u) (hv : Detail v) : Detail (u ++ v) := by
  obtain ⟨hfree, c, hc, hmark⟩ := hv
  exact ⟨braceFree_both u v hu hfree, c, List.mem_append_right u hc, hmark⟩

theorem reads_one_braceFree {fits : Char → Bool} (hopen : fits '{' = false)
    (hclose : fits '}' = false) : ∀ c, fits c = true → BraceFree [c] := by
  intro c hc
  have h1 : c ≠ '{' := fun he => by simp [he, hopen] at hc
  have h2 : c ≠ '}' := fun he => by simp [he, hclose] at hc
  simp [isBrace, h1, h2, BraceFree.nil]

theorem only_reads {c : Char} {q : List Char → Prop} (h : q [c]) : (only c).Reads q := by
  refine reads_one fun d hd => ?_
  obtain rfl : d = c := by simpa using hd
  exact h

theorem only_detail {c : Char} (hfree : BraceFree [c]) (hmark : isMark c = true) :
    (only c).Reads Detail := only_reads ⟨hfree, c, List.mem_singleton_self c, hmark⟩

theorem optional_only_braceFree {c : Char} (h : BraceFree [c]) :
    (Pattern.optional (only c)).Reads BraceFree := (only_reads h).optional BraceFree.nil

theorem digit_braceFree : digit.Reads BraceFree :=
  reads_one (reads_one_braceFree (by decide) (by decide))

theorem digits_braceFree (n : Nat) : (digit.times n).Reads BraceFree :=
  digit_braceFree.times BraceFree.nil braceFree_both n

theorem between_digits_braceFree (low high : Nat) : (digit.between low high).Reads BraceFree :=
  digit_braceFree.between BraceFree.nil braceFree_both low high

theorem gap_braceFree : gap.Reads BraceFree :=
  (reads_one (reads_one_braceFree (by decide) (by decide))).optional BraceFree.nil

theorem inOrder_braceFree {ps : List Pattern} (h : ∀ p ∈ ps, Pattern.Reads p BraceFree) :
    (inOrder ps).Reads BraceFree := reads_inOrder BraceFree.nil braceFree_both h

theorem nationalPhone_detail : nationalPhone.Reads Detail := by
  have hplus : (inOrder [only '+', only '7']).Reads Detail := by
    refine (only_detail (by decide) (by decide)).andThen (inOrder_braceFree ?_) detail_first
    exact List.forall_mem_singleton.mpr (only_reads (by decide))
  have height : (inOrder [boundary, only '8']).Reads Detail := by
    refine (reads_boundary BraceFree.nil).andThen ?_ detail_second
    exact (only_detail (by decide) (by decide)).andThen (inOrder_braceFree (by simp)) detail_first
  refine (hplus.orElse height).andThen (inOrder_braceFree ?_) detail_first
  simp only [List.forall_mem_cons]
  exact ⟨gap_braceFree, optional_only_braceFree (by decide), digits_braceFree 3,
    optional_only_braceFree (by decide), gap_braceFree, digits_braceFree 3, gap_braceFree,
    digits_braceFree 2, gap_braceFree, digits_braceFree 2, reads_boundary BraceFree.nil, by simp⟩

theorem internationalPhone_detail : internationalPhone.Reads Detail := by
  have hgroup : (inOrder [gap, digit.between 2 4]).Reads BraceFree :=
    inOrder_braceFree (by simp [gap_braceFree, between_digits_braceFree])
  refine (only_detail (by decide) (by decide)).andThen (inOrder_braceFree ?_) detail_first
  simp only [List.forall_mem_cons]
  exact ⟨between_digits_braceFree 1 3, gap_braceFree, optional_only_braceFree (by decide),
    between_digits_braceFree 1 4, optional_only_braceFree (by decide),
    hgroup.between BraceFree.nil braceFree_both 2 4, reads_boundary BraceFree.nil, by simp⟩

theorem mailAddress_detail : mailAddress.Reads Detail := by
  have hmailbox : (wholeRun isMailboxChar).Reads BraceFree :=
    reads_wholeRun BraceFree.nil braceFree_both (reads_one_braceFree (by decide) (by decide))
  have hhost : (atLeastOne isHostChar).Reads BraceFree :=
    reads_atLeastOne BraceFree.nil braceFree_both (reads_one_braceFree (by decide) (by decide))
  have hletter : ∀ c, isAsciiLetter c = true → BraceFree [c] :=
    reads_one_braceFree (by decide) (by decide)
  refine hmailbox.andThen ?_ detail_second
  refine (only_detail (by decide) (by decide)).andThen (inOrder_braceFree ?_) detail_first
  simp only [List.forall_mem_cons]
  exact ⟨hhost, only_reads (by decide), reads_one hletter,
    reads_atLeastOne BraceFree.nil braceFree_both hletter, by simp⟩

theorem detail_of_find? {contact : Contact} (hc : contact ∈ all) {markup found : List Char}
    (h : contact.pattern.find? markup = some found) : Detail found := by
  simp only [all, List.mem_cons, List.not_mem_nil, or_false] at hc
  rcases hc with rfl | rfl | rfl
  · exact nationalPhone_detail.find? h
  · exact internationalPhone_detail.find? h
  · exact mailAddress_detail.find? h

theorem Detail.ne_nil {s : List Char} (h : Detail s) : s ≠ [] := by
  obtain ⟨-, c, hc, -⟩ := h
  exact List.ne_nil_of_mem hc

/-- No contact detail is inside a word without a plus, an eight and an at sign. -/
theorem Detail.not_infix {s : List Char} (h : Detail s) {w : String}
    (hmark : w.toList.any isMark = false) : ¬ s <:+: w.toList := by
  obtain ⟨-, c, hc, hcmark⟩ := h
  intro hi
  exact List.any_eq_false.mp hmark c (hi.subset hc) hcmark

theorem Detail.not_infix_placeholder {s : List Char} (h : Detail s) {contact : Contact}
    (hc : contact ∈ all) : ¬ s <:+: contact.placeholder.toList := by
  have hnone : ∀ contact ∈ all, contact.placeholder.toList.any isMark = false := by
    simp only [all, List.forall_mem_cons]
    exact ⟨by decide, by decide, by decide, by simp⟩
  exact h.not_infix (hnone contact hc)

def Name (w : String) : Prop := ∃ contact ∈ all, w = contact.placeholder

end EmailTemplate.Contact
