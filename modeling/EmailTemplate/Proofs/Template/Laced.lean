import EmailTemplate.Proofs.Template.Braces
import EmailTemplate.Proofs.Template.Cleanup
import EmailTemplate.Proofs.Template.Names

/-! Texts laced with tokens, which may have tokens inside of them in turn. Rendering takes away every
opening brace of such a text. -/

namespace EmailTemplate.Template

open Text

/-- Texts of one kind with tokens between them whose interiors are of another kind. -/
inductive Laced (T I : List Char → Prop) : List Char → Prop
  | plain {u : List Char} (hu : T u) : Laced T I u
  | lace {u v s : List Char} (hu : T u) (hv : I v) (hs : Laced T I s) :
      Laced T I (u ++ (token v ++ s))

namespace Laced

variable {T T' I I' : List Char → Prop} {s t : List Char}

theorem mono (hT : ∀ u, T u → T' u) (hI : ∀ v, I v → I' v) (h : Laced T I s) : Laced T' I' s := by
  induction h with
  | plain hu => exact .plain (hT _ hu)
  | lace hu hv _ ih => exact .lace (hT _ hu) (hI _ hv) ih

section Append

variable (happend : ∀ u v, T u → T v → T (u ++ v))
include happend

theorem text_append {u : List Char} (hu : T u) (h : Laced T I s) : Laced T I (u ++ s) := by
  cases h with
  | plain hs => exact .plain (happend _ _ hu hs)
  | lace hx hv hs =>
    rw [← List.append_assoc]
    exact .lace (happend _ _ hu hx) hv hs

theorem append (hs : Laced T I s) (ht : Laced T I t) : Laced T I (s ++ t) := by
  induction hs with
  | plain hu => exact ht.text_append happend hu
  | lace hu hv _ ih =>
    rw [List.append_assoc, List.append_assoc]
    exact .lace hu hv ih

end Append

theorem of_interior (hnil : T []) {v : List Char} (hv : I v) : Laced T I (token v) := by
  have h : Laced T I ([] ++ (token v ++ [])) := .lace hnil hv (.plain hnil)
  rwa [List.nil_append, List.append_nil] at h

theorem flatMap {e : Char → List Char} (hopen : e '{' = ['{']) (hclose : e '}' = ['}'])
    (hT : ∀ u, T u → T (u.flatMap e)) (hI : ∀ v, I v → v.flatMap e = v) (h : Laced T I s) :
    Laced T I (s.flatMap e) := by
  induction h with
  | plain hu => exact .plain (hT _ hu)
  | @lace u v s hu hv _ ih =>
    have htoken : (token v).flatMap e = token v := by
      simp [token, openBraces, closeBraces, hopen, hclose, hI v hv]
    rw [List.flatMap_append, List.flatMap_append, htoken]
    exact .lace (hT _ hu) hv ih

/-- A literal without braces is replaced in each text and each interior for itself. -/
theorem replaceAll {find put : List Char} (hf : find ≠ []) (hfree : BraceFree find)
    (hnil : T []) (happend : ∀ u v, T u → T v → T (u ++ v))
    (hT : ∀ u, T u → Laced T I (Text.replaceAll find put u))
    (hI : ∀ v, I v → I (Text.replaceAll find put v)) (h : Laced T I s) :
    Laced T I (Text.replaceAll find put s) := by
  induction h with
  | plain hu => exact hT _ hu
  | @lace u v s hu hv _ ih =>
    rw [replaceAll_token hf hfree]
    have hrest := lace hnil (hI v hv) ih
    exact (hT u hu).append happend hrest

theorem forall_mem {p : Char → Prop} (hopen : p '{') (hclose : p '}') (hT : ∀ u, T u → ∀ c ∈ u, p c)
    (hI : ∀ v, I v → ∀ c ∈ v, p c) (h : Laced T I s) : ∀ c ∈ s, p c := by
  have htoken : ∀ v, I v → ∀ c ∈ token v, p c := by
    intro v hv c hc
    simp only [token, openBraces, closeBraces, List.mem_append, List.mem_cons, List.not_mem_nil,
      or_false, or_self] at hc
    rcases hc with (rfl | hc) | rfl
    · exact hopen
    · exact hI v hv c hc
    · exact hclose
  induction h with
  | plain hu => exact hT _ hu
  | lace hu hv _ ih =>
    exact List.forall_mem_append.mpr ⟨hT _ hu, List.forall_mem_append.mpr ⟨htoken _ hv, ih⟩⟩

end Laced

theorem laced_replaceAll {p : Char → Prop} {I : List Char → Prop} {find q : List Char}
    (hf : find ≠ []) (hq : I q) {u : List Char} (hu : ∀ c ∈ u, p c) :
    Laced (fun u => ∀ c ∈ u, p c) I (replaceAll find (token q) u) := by
  have happend : ∀ u v : List Char, (∀ c ∈ u, p c) → (∀ c ∈ v, p c) → ∀ c ∈ u ++ v, p c :=
    fun u v hu hv => List.forall_mem_append.mpr ⟨hu, hv⟩
  induction u using literal_induction hf with
  | nil => exact .plain (by simp)
  | found s ih =>
    rw [replaceAll_literal hf]
    exact .lace (u := []) (by simp) hq (ih fun c hc => hu c (List.mem_append_right find hc))
  | passed c s hp ih =>
    obtain ⟨hc, hs⟩ := List.forall_mem_cons.mp hu
    rw [replaceAll_cons hp]
    exact (ih hs).text_append happend (u := [c]) (List.forall_mem_singleton.mpr hc)

/-! ### Tokens inside tokens -/

def Solid (s : List Char) : Prop := ∀ c ∈ s, isBrace c = false ∧ isBlank c = false

/-- The word of a token that belongs to no section and no loop. -/
def Unmarked (w : List Char) : Prop := Solid w ∧ w.head? ≠ some '#' ∧ w.head? ≠ some '/'

theorem Solid.braceFree {s : List Char} (h : Solid s) : BraceFree s := fun c hc => (h c hc).1

/-- The interior of a token with a token inside. -/
def Knotted (v : List Char) : Prop :=
  ∃ u w s, Solid u ∧ Unmarked w ∧ Laced Solid Unmarked s ∧ v = u ++ (token w ++ s)

theorem not_closeBraces_prefix {x u : List Char} (hx : BraceFree x) (hu : BraceFree u)
    (r : List Char) : ¬ x ++ closeBraces <+: u ++ '{' :: r := by
  have hopen : '{' ∉ x ++ closeBraces := by simp [closeBraces, hx.open_not_mem]
  rw [prefix_append_cons_iff hopen]
  intro h
  exact hu.close_not_mem (h.subset (by simp [closeBraces]))

section Read

variable {α : Type} {read : List Char → Option α}

section Edges

variable (hread : ∀ s a, read s = some a → ∃ x, BraceFree x ∧ token x <+: s)
include hread

theorem read_braceless {s : List Char} (h : ¬ openBraces <+: s) : read s = none := by
  rw [Option.eq_none_iff_forall_ne_some]
  intro a ha
  obtain ⟨x, -, hx⟩ := hread s a ha
  refine h (List.IsPrefix.trans ⟨x ++ closeBraces, ?_⟩ hx)
  simp [token]

theorem BraceFree.idle {u : List Char} (hu : BraceFree u) (t : List Char) : Idle read u t :=
  Passes.idle (fun _ => read_braceless hread) (hu.loose.passes t)

theorem idle_closeBraces (t : List Char) : Idle read closeBraces t := by
  refine Passes.idle (fun _ => read_braceless hread) (Passes.of_not_mem ?_ t)
  simp [closeBraces]

/-- Before a token inside, the braces of the one outside open nothing. -/
theorem idle_openBraces {u w : List Char} (hu : BraceFree u) (r : List Char) :
    Idle read openBraces (u ++ (token w ++ r)) := by
  rw [token_append]
  have hfirst : ∀ u' r', BraceFree u' → read (openBraces ++ (u' ++ '{' :: r')) = none := by
    intro u' r' hu'
    rw [Option.eq_none_iff_forall_ne_some]
    intro a ha
    obtain ⟨x, hx, hp⟩ := hread _ a ha
    rw [token, List.append_assoc, List.prefix_append_right_inj] at hp
    exact not_closeBraces_prefix hx hu' r' hp
  have hsecond : read ('{' :: (u ++ '{' :: '{' :: (w ++ '}' :: '}' :: r))) = none := by
    cases u with
    | nil => exact hfirst [] _ BraceFree.nil
    | cons c u =>
      refine read_braceless hread fun hp => ?_
      have hc := (List.cons_prefix_cons.mp (List.cons_prefix_cons.mp hp).2).1
      exact hu.open_not_mem (hc ▸ List.mem_cons_self)
  exact Idle.cons (hfirst u _ hu) (Idle.cons hsecond fun v w hvw hw => absurd hvw (by simp [hw]))

end Edges

variable (hread : ∀ s a, read s = some a → ∃ x, BraceFree x ∧ ¬ Unmarked x ∧ token x <+: s)
include hread

theorem Laced.idle {s : List Char} (h : Laced Solid Unmarked s) (t : List Char) : Idle read s t := by
  have hedge : ∀ s a, read s = some a → ∃ x, BraceFree x ∧ token x <+: s := by
    intro s a ha
    obtain ⟨x, hx, -, hp⟩ := hread s a ha
    exact ⟨x, hx, hp⟩
  induction h with
  | plain hu => exact hu.braceFree.idle hedge t
  | @lace u w s hu hw _ ih =>
    have hfree : BraceFree w := hw.1.braceFree
    -- What is read at a token is that token, and this one is unmarked.
    have hnone : read (token w ++ (s ++ t)) = none := by
      rw [Option.eq_none_iff_forall_ne_some]
      intro a ha
      obtain ⟨x, hx, hmarked, hp⟩ := hread _ a ha
      exact hmarked (eq_of_prefix_token hx.close_not_mem hfree.close_not_mem hp ▸ hw)
    have htoken := idle_token (fun _ => read_braceless hedge) hfree hnone
    exact (hu.braceFree.idle hedge _).append (htoken.append ih)

theorem Knotted.idle {v : List Char} (h : Knotted v) (t : List Char) : Idle read (token v) t := by
  have hedge : ∀ s a, read s = some a → ∃ x, BraceFree x ∧ token x <+: s := by
    intro s a ha
    obtain ⟨x, hx, -, hp⟩ := hread s a ha
    exact ⟨x, hx, hp⟩
  obtain ⟨u, w, s, hu, hw, hs, rfl⟩ := h
  have hbody := Laced.idle hread (.lace hu hw hs) (closeBraces ++ t)
  have hopen := idle_openBraces hedge (w := w) hu.braceFree (s ++ (closeBraces ++ t))
  rw [token, List.append_assoc]
  refine Idle.append ?_ (hbody.append (idle_closeBraces hedge t))
  simpa using hopen

end Read

/-! ### Sections and loops -/

theorem not_unmarked_cons {c : Char} (hc : c = '#' ∨ c = '/') (w : List Char) :
    ¬ Unmarked (c :: w) := by
  rintro ⟨-, hopen, hclose⟩
  rcases hc with rfl | rfl
  · exact hopen rfl
  · exact hclose rfl

theorem read_sectionAt? (s : List Char) (found : List Char × List Char)
    (h : sectionAt? s = some found) : ∃ x, BraceFree x ∧ ¬ Unmarked x ∧ token x <+: s := by
  obtain ⟨name, rest⟩ := found
  obtain ⟨hname, heq⟩ := sectionAt?_eq_some h
  rw [sectionOpener_eq] at heq
  exact ⟨_, hname.openerWord_braceFree, not_unmarked_cons (.inl rfl) _, ⟨rest, heq.symm⟩⟩

theorem read_sectionCloser {name : List Char} (hname : IsName name) (s : List Char)
    (found : List Char × Nat) (h : literal (sectionCloser name) [] s = some found) :
    ∃ x, BraceFree x ∧ ¬ Unmarked x ∧ token x <+: s := by
  refine ⟨_, hname.closerWord_braceFree, not_unmarked_cons (.inr rfl) _, ?_⟩
  rw [← sectionCloser_eq]
  by_contra hno
  rw [literal_eq_none_iff.mpr hno] at h
  cases h

theorem read_loopStep {data : Json.Value} (s : List Char) (found : List Char × Nat)
    (h : loopStep data s = some found) :
    ∃ x name, LoopWord x name ∧ token x <+: s := by
  cases hat : loopAt? s with
  | none => simp [loopStep, hat] at h
  | some opened =>
    obtain ⟨name, rest⟩ := opened
    obtain ⟨x, hx, heq⟩ := loopAt?_eq_some hat
    exact ⟨x, name, hx, ⟨rest, heq.symm⟩⟩

theorem LoopWord.not_unmarked {x name : List Char} (h : LoopWord x name) : ¬ Unmarked x := by
  obtain ⟨-, b, b', -, -, -, rfl⟩ := h
  exact not_unmarked_cons (.inl rfl) _

theorem LoopWord.not_solid {x name : List Char} (h : LoopWord x name) : ¬ Solid x := by
  obtain ⟨-, b, b', hne, hb, -, rfl⟩ := h
  obtain ⟨c, b, rfl⟩ := List.exists_cons_of_ne_nil hne
  intro hsolid
  have hblank := hb c List.mem_cons_self
  rw [(hsolid c (by simp)).2] at hblank
  cases hblank

def Piece.Knotted : Piece → Prop
  | text s => BraceFree s ∨ ∃ v, Template.Knotted v ∧ s = token v
  | value inner => Solid inner

theorem Laced.exists_row {s : List Char} (h : Laced BraceFree (Laced Solid Unmarked) s) :
    ∃ row, (∀ p ∈ row, p.Knotted) ∧ printRow row = s := by
  induction h with
  | @plain u hu => exact ⟨[.text u], by simp [Piece.Knotted, hu], by simp [Piece.print]⟩
  | @lace u v s hu hv _ ih =>
    obtain ⟨row, hrow, rfl⟩ := ih
    have htext : (Piece.text u).Knotted := .inl hu
    cases hv with
    | plain hv =>
      refine ⟨.text u :: .value v :: row, ?_, rfl⟩
      exact List.forall_mem_cons.mpr ⟨htext, List.forall_mem_cons.mpr ⟨hv, hrow⟩⟩
    | lace hx hw hs =>
      refine ⟨.text u :: .text _ :: row, ?_, rfl⟩
      exact List.forall_mem_cons.mpr ⟨htext,
        List.forall_mem_cons.mpr ⟨.inr ⟨_, ⟨_, _, _, hx, hw, hs, rfl⟩, rfl⟩, hrow⟩⟩

namespace Piece.Knotted

variable {p : Piece}

theorem sectionless (h : p.Knotted) : p.Sectionless := by
  cases p with
  | text s =>
    rcases h with h | ⟨v, hv, rfl⟩
    · exact h.loose.sectionless
    · refine fun t => ⟨hv.idle read_sectionAt? t, fun name hname => ?_⟩
      exact idle_literal_iff.mp (hv.idle (read_sectionCloser hname) t)
  | value inner => exact Solid.braceFree h

theorem idle_loopStep (h : p.Knotted) (data : Json.Value) (t : List Char) :
    Idle (loopStep data) p.print t := by
  have hedge : ∀ s a, loopStep data s = some a → ∃ x, BraceFree x ∧ token x <+: s := by
    intro s a ha
    obtain ⟨x, name, hx, hp⟩ := read_loopStep s a ha
    exact ⟨x, hx.braceFree, hp⟩
  cases p with
  | text s =>
    rcases h with h | ⟨v, hv, rfl⟩
    · exact h.idle hedge t
    · refine hv.idle (fun s a ha => ?_) t
      obtain ⟨x, name, hx, hp⟩ := read_loopStep s a ha
      exact ⟨x, hx.braceFree, hx.not_unmarked, hp⟩
  | value inner =>
    have hsolid : Solid inner := h
    refine idle_token (fun _ => read_braceless hedge) hsolid.braceFree ?_
    rw [Option.eq_none_iff_forall_ne_some]
    intro a ha
    obtain ⟨x, name, hx, hp⟩ := read_loopStep _ a ha
    have hword := eq_of_prefix_token hx.braceFree.close_not_mem hsolid.braceFree.close_not_mem hp
    exact hx.not_solid (hword ▸ hsolid)

end Piece.Knotted

theorem expandLoops_knotted (data : Json.Value) {row : List Piece} (h : ∀ p ∈ row, p.Knotted) :
    expandLoops (printRow row) data = printRow row := by
  have hidle : Idle (loopStep data) (printRow row) [] := by
    induction row with
    | nil => exact fun v w hvw hw => absurd hvw (by simp [hw])
    | cons p row ih =>
      rw [printRow_cons]
      exact ((h p List.mem_cons_self).idle_loopStep data _).append
        (ih fun q hq => h q (List.mem_cons_of_mem p hq))
  have hall := replaceMatches_idle hidle
  rwa [List.append_nil, replaceMatches_nil, List.append_nil] at hall

/-! ### Values and the cleanup -/

theorem read_valueToken? (s : List Char) (found : List Char × Nat) (h : valueToken? s = some found) :
    ∃ x, BraceFree x ∧ token x <+: s := by
  obtain ⟨x, n⟩ := found
  obtain ⟨hx, rest, heq⟩ := valueToken?_eq_some h
  exact ⟨x, hx, ⟨rest, heq.symm⟩⟩

theorem substitute_idle {values : Bindings} {u t : List Char} (h : Idle valueToken? u t) :
    substitute values (u ++ t) = u ++ substitute values t := by
  refine replaceMatches_idle fun v w hvw hw => ?_
  rw [h v w hvw hw, Option.map_none]

def BindsBraceFree (values : Bindings) (s : List Char) : Prop :=
  ∀ w put, BraceFree w → token w <:+: s → boundValue? values w = some put → BraceFree put

theorem Laced.substitute {values : Bindings} {s : List Char} (h : Laced BraceFree BraceFree s)
    (hv : BindsBraceFree values s) : ∃ s', Laced BraceFree BraceFree s' ∧
      ∀ t, Template.substitute values (s ++ t) = s' ++ Template.substitute values t := by
  induction h with
  | @plain u hu => exact ⟨u, .plain hu, fun t => substitute_idle (hu.idle read_valueToken? t)⟩
  | @lace u w s hu hw _ ih =>
    obtain ⟨s', hs', hrest⟩ := ih fun x put hx hi =>
      hv x put hx (hi.trans ((List.suffix_append _ _).isInfix.trans (List.suffix_append _ _).isInfix))
    have hword : token w <:+: u ++ (token w ++ s) := ⟨u, s, by simp⟩
    have hstep : ∀ t, Template.substitute values (u ++ (token w ++ s) ++ t) = u ++
        ((Piece.fill (boundValue? values) (.value w)).print ++ (s' ++ Template.substitute values t)) := by
      intro t
      rw [List.append_assoc, List.append_assoc, substitute_idle (hu.idle read_valueToken? _),
        substitute_token values hw, hrest]
    cases hput : boundValue? values w with
    | none =>
      refine ⟨u ++ (token w ++ s'), .lace hu hw hs', fun t => ?_⟩
      rw [hstep]
      simp [Piece.fill, hput, Piece.print]
    | some put =>
      have hfree : BraceFree put := hv w put hw hword hput
      refine ⟨u ++ (put ++ s'), ?_, fun t => ?_⟩
      · exact (hs'.text_append braceFree_both hfree).text_append braceFree_both hu
      · rw [hstep]
        simp [Piece.fill, hput, Piece.print]

theorem strip_braceFree {u : List Char} (hu : BraceFree u) (t : List Char) :
    strip (u ++ t) = u ++ strip t := by
  refine replaceMatches_idle (Passes.idle (fun s hs => ?_) (hu.loose.passes t))
  rw [leftover?, tokenAt?_eq_none hs, Option.map_none]

theorem Laced.strip {s : List Char} (h : Laced BraceFree BraceFree s) :
    ∃ s', BraceFree s' ∧ ∀ t, Template.strip (s ++ t) = s' ++ Template.strip t := by
  induction h with
  | @plain u hu => exact ⟨u, hu, strip_braceFree hu⟩
  | @lace u w s hu hw _ ih =>
    obtain ⟨s', hs', hrest⟩ := ih
    refine ⟨u ++ s', braceFree_append.mpr ⟨hu, hs'⟩, fun t => ?_⟩
    rw [List.append_assoc, List.append_assoc, strip_braceFree hu, strip_token hw.close_not_mem, hrest,
      List.append_assoc]

/-- The cleanup takes the opening braces of a token away with those of the first one inside. -/
theorem strip_knot {v : List Char} (h : Laced BraceFree BraceFree v) :
    ∃ s', '{' ∉ s' ∧ ∀ t, strip (token v ++ t) = s' ++ strip t := by
  cases h with
  | plain hv => exact ⟨[], by simp, fun t => strip_token hv.close_not_mem t⟩
  | @lace u w s hu hw hs =>
    obtain ⟨s', hs', hrest⟩ := hs.strip
    have hclose : ∀ t, strip (closeBraces ++ t) = closeBraces ++ strip t := by
      intro t
      refine replaceMatches_idle (Passes.idle (fun s hs => ?_) (Passes.of_not_mem ?_ t))
      · rw [leftover?, tokenAt?_eq_none hs, Option.map_none]
      · simp [closeBraces]
    have hinner : '}' ∉ u ++ (openBraces ++ w) := by
      simp [openBraces, hu.close_not_mem, hw.close_not_mem]
    refine ⟨s' ++ closeBraces, by simp [hs'.open_not_mem, closeBraces], fun t => ?_⟩
    -- To the cleanup, all up to the first closing braces is one token.
    have hshape : token (u ++ (token w ++ s)) ++ t =
        token (u ++ (openBraces ++ w)) ++ (s ++ (closeBraces ++ t)) := by simp [token]
    rw [hshape, strip_token hinner, hrest, hclose, List.append_assoc]

/-- Values and cleanup leave no opening brace of a piece. -/
theorem Piece.Knotted.exists_cleared {values : Bindings} {p : Piece} (h : p.Knotted)
    (hv : BindsBraceFree values p.print) : ∃ s s', '{' ∉ s' ∧
      (∀ t, substitute values (p.print ++ t) = s ++ substitute values t) ∧
      ∀ t, strip (s ++ t) = s' ++ strip t := by
  have hlaced : Laced BraceFree BraceFree p.print → ∃ s s', '{' ∉ s' ∧
      (∀ t, substitute values (p.print ++ t) = s ++ substitute values t) ∧
      ∀ t, strip (s ++ t) = s' ++ strip t := by
    intro h
    obtain ⟨s, hs, hsubstitute⟩ := h.substitute hv
    obtain ⟨s', hs', hstrip⟩ := hs.strip
    exact ⟨s, s', hs'.open_not_mem, hsubstitute, hstrip⟩
  cases p with
  | value inner => exact hlaced (.of_interior BraceFree.nil (Solid.braceFree h))
  | text s =>
    rcases h with h | ⟨v, ⟨u, w, s, hu, hw, hs, rfl⟩, rfl⟩
    · exact hlaced (.plain h)
    · have hinside : Laced BraceFree BraceFree (u ++ (token w ++ s)) :=
        Laced.mono (fun _ => Solid.braceFree) (fun _ h => h.1.braceFree) (.lace hu hw hs)
      obtain ⟨v', hv', hsubstitute⟩ := hinside.substitute fun x put hx hi => hv x put hx
        (hi.trans ⟨openBraces, closeBraces, rfl⟩)
      obtain ⟨s', hs', hstrip⟩ := strip_knot hv'
      refine ⟨token v', s', hs', fun t => ?_, hstrip⟩
      have hopen := idle_openBraces read_valueToken? (w := w) hu.braceFree (s ++ (closeBraces ++ t))
      have hclose := idle_closeBraces read_valueToken? t
      have hshape : (Piece.text (token (u ++ (token w ++ s)))).print ++ t =
          openBraces ++ (u ++ (token w ++ (s ++ (closeBraces ++ t)))) := by simp [Piece.print, token]
      have hbody := hsubstitute (closeBraces ++ t)
      rw [substitute_idle hclose] at hbody
      rw [hshape, substitute_idle hopen]
      simp only [List.append_assoc] at hbody
      rw [hbody]
      simp [token]

theorem open_not_mem_strip_substitute {values : Bindings} {row : List Piece}
    (h : ∀ p ∈ row, p.Knotted) (hv : ∀ p ∈ row, BindsBraceFree values p.print) :
    '{' ∉ strip (substitute values (printRow row)) := by
  induction row with
  | nil => simp [substitute, strip]
  | cons p row ih =>
    obtain ⟨s, s', hs', hsubstitute, hstrip⟩ :=
      (h p List.mem_cons_self).exists_cleared (hv p List.mem_cons_self)
    rw [printRow_cons, hsubstitute, hstrip, List.mem_append, not_or]
    exact ⟨hs', ih (fun q hq => h q (List.mem_cons_of_mem p hq))
      fun q hq => hv q (List.mem_cons_of_mem p hq)⟩

/-- No token of a template has a value with a brace. -/
def BraceFreeValues (t : List Char) (data : Json.Value) : Prop :=
  ∀ name ∈ tokenNames t, ∀ value ∈ Json.lookup? (String.ofList name) (flatten data),
    BraceFree value.toList

instance (t : List Char) (data : Json.Value) : Decidable (BraceFreeValues t data) :=
  inferInstanceAs (Decidable (∀ name ∈ tokenNames t,
    ∀ value ∈ Json.lookup? (String.ofList name) (flatten data), BraceFree value.toList))

/-- Rendering leaves no opening brace, not even where tokens stand inside of tokens. -/
theorem open_not_mem_renderHtml {t : List Char} {data : Json.Value}
    (ht : Laced BraceFree (Laced Solid Unmarked) t)
    (hv : BraceFreeValues (resolveBlocks t data) data) : '{' ∉ renderHtml t data := by
  obtain ⟨row, hrow, rfl⟩ := ht.exists_row
  obtain ⟨shown, hshown⟩ :=
    SectionlessRow.exists_resolved (fun p hp => (hrow p hp).sectionless) (isVisible data)
  have hknotted : ∀ p ∈ shown, p.Knotted := fun p hp => hrow p (hshown.part.subset hp)
  -- Sections take pieces away and loops find no opener, so the row is left to values and cleanup.
  rw [renderHtml]
  rw [resolveBlocks, hshown.leaves] at hv ⊢
  rw [expandLoops_knotted data hknotted]
  refine open_not_mem_strip_substitute hknotted fun p hp w put hw hi hput => ?_
  have hprint : p.print <:+: printRow shown := by
    obtain ⟨before, after, rfl⟩ := List.append_of_mem hp
    exact ⟨printRow before, printRow after, by simp⟩
  obtain ⟨value, hvalue, rfl⟩ := Option.map_eq_some_iff.mp hput
  exact hv _ (mem_tokenNames_of_token hw (hi.trans hprint)) value hvalue

end EmailTemplate.Template
