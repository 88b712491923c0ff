import EmailTemplate.Proofs.Adaptation.Ledger
import EmailTemplate.Proofs.Html.Visits

/-! A second run of the stages of the preheader and the title. What such a stage has found it finds
again, now with the token in it, so that there is nothing left to do. -/

namespace EmailTemplate

open Html Template Text

namespace Landmark

/-! ### The title -/

theorem isInside_congr {wanted : Element → Bool}
    (hwanted : ∀ e e' : Element, e.tag = e'.tag → wanted e = wanted e') {v w : Visit}
    (h : v.setting = w.setting) : v.isInside wanted = w.isInside wanted := by
  have hsetting : ∀ u : Visit,
      u.isInside wanted = u.setting.any fun s => wanted ⟨s.1, s.2, .nil⟩ := by
    intro u
    rw [Visit.isInside, Visit.setting, kinds, List.any_map]
    exact congrArg u.around.any (funext fun a => hwanted a.2 _ rfl)
  rw [hsetting, hsetting, h]

/-- Whether an element may be the title does not depend on what is in it. -/
theorem titleCandidate_congr {candidate : Visit → Bool} (hc : candidate ∈ titleCandidates)
    {v w : Visit} (htag : v.element.tag = w.element.tag)
    (hattributes : v.element.attributes = w.element.attributes) (hsetting : v.setting = w.setting) :
    candidate v = candidate w := by
  have hisTag : ∀ {e e' : Element}, e.tag = e'.tag → ∀ name, e.isTag name = e'.isTag name := by
    intro e e' h name
    rw [Element.isTag, Element.isTag, h]
  have hclass : v.element.classContains = w.element.classContains := by
    funext part
    rw [Element.classContains, Element.classContains, Element.attribute?, Element.attribute?,
      hattributes]
  have hcell : v.isInside (fun a => a.isTag "td" || a.isTag "th") =
      w.isInside fun a => a.isTag "td" || a.isTag "th" :=
    isInside_congr (fun e e' h => by rw [hisTag h, hisTag h]) hsetting
  have hdivision : v.isInside (·.isTag "div") = w.isInside (·.isTag "div") :=
    isInside_congr (fun e e' h => hisTag h "div") hsetting
  simp only [titleCandidates, List.mem_cons, List.not_mem_nil, or_false] at hc
  rcases hc with rfl | rfl | rfl | rfl
  · exact hisTag htag "h1"
  · simp only [hclass]
  · simp only [isHeading, hisTag htag, hcell]
  · simp only [isHeading, hisTag htag, hdivision]

theorem trimmedText_text (e : Element) (s : String) :
    ({ e with children := .text s .nil } : Element).trimmedText = trim s.toList := by
  simp [Element.trimmedText, Element.textContent, Forest.textContent]

/-- The title stays the title with another text in it. -/
theorem title?_setText {doc : Forest} {v : Visit} (h : title? doc = some v) {s : String}
    (hs : trim s.toList ≠ []) :
    ∃ v', title? (doc.setText v.index s) = some v' ∧ v'.index = v.index := by
  obtain ⟨before, candidate, after, hall, hfound, hnone⟩ := List.findSome?_eq_some_iff.mp h
  have hfits := List.find?_some hfound
  rw [Bool.and_eq_true, Bool.not_eq_true', List.isEmpty_eq_false_iff] at hfits
  -- an element around the title has the text of the title inside, so it had a text before
  have hkept : ∀ c ∈ titleCandidates, ∀ w w', w.Alike v.element w' →
      (c w' && !w'.element.trimmedText.isEmpty) = true →
        (c w && !w.element.trimmedText.isEmpty) = true := by
    intro c hc w w' halike hw'
    rw [Bool.and_eq_true, Bool.not_eq_true', List.isEmpty_eq_false_iff] at hw' ⊢
    refine ⟨(titleCandidate_congr hc halike.tag halike.attributes halike.setting).trans hw'.1, ?_⟩
    rcases halike.content with hsame | hinside
    · rw [hsame]
      exact hw'.2
    · exact trim_ne_nil_of_infix hinside hfits.2
  have hmem : ∀ c ∈ before ++ [candidate], c ∈ titleCandidates := by
    intro c hc
    rw [hall, List.append_cons]
    exact List.mem_append_left after hc
  have hcandidate : candidate ∈ titleCandidates :=
    hmem candidate (List.mem_append_right before (List.mem_singleton_self candidate))
  obtain ⟨v', hv', hindex, -⟩ := Forest.find?_visits_updateAt hfound
    (fun e => { e with children := .text s .nil }) rfl rfl (hkept candidate hcandidate)
    fun v' halike helement => by
      rw [← titleCandidate_congr hcandidate halike.tag halike.attributes halike.setting, hfits.1,
        helement, trimmedText_text, Bool.true_and, Bool.not_eq_true', List.isEmpty_eq_false_iff]
      exact hs
  refine ⟨v', List.findSome?_eq_some_iff.mpr ⟨before, candidate, after, hall, hv', ?_⟩, hindex⟩
  intro c hc
  exact Forest.find?_visits_updateAt_eq_none rfl rfl (hnone c hc) (elementAt?_of_title? h).1 rfl
    (hkept c (hmem c (List.mem_append_left [candidate] hc)))

/-! ### The preheader -/

/-- The preheader stays the preheader with another text of a fit length in it. -/
theorem preheader?_setText {doc : Forest} {v : Visit} (h : preheader? doc = some v) {s : String}
    (hs : 10 < (trim s.toList).length ∧ (trim s.toList).length ≤ 200) :
    ∃ v', preheader? (doc.setText v.index s) = some v' ∧ v'.index = v.index := by
  obtain ⟨body, hbody, hfound⟩ := Option.bind_eq_some_iff.mp h
  have hmem := List.mem_of_mem_take (List.mem_of_find?_eq_some hfound)
  obtain ⟨j, hindex, hinner⟩ := Forest.elementAt?_of_mem_rootVisitsFrom hmem
  have hfits : isPreheader { v.element with children := .text s .nil } = true := by
    have hhidden := List.find?_some hfound
    rw [isPreheader, Bool.and_eq_true] at hhidden ⊢
    refine ⟨?_, hhidden.2⟩
    rw [trimmedText_text, Bool.and_eq_true, decide_eq_true_eq, decide_eq_true_eq]
    exact hs
  obtain ⟨body', hbody', hplace, helement⟩ :=
    Forest.body?_updateAt hbody fun children => children.setText j s
  obtain ⟨v', hv', hsame, -⟩ := Forest.find?_rootVisitsFrom_updateAt hfound hindex
    (fun e => { e with children := .text s .nil }) hfits
    ((body'.index, body'.element) :: body'.around)
  have hchildren : body'.children = (body.element.children.setText j s).rootVisitsFrom
      (body.index + 1) ((body'.index, body'.element) :: body'.around) := by
    rw [Visit.children, helement, hplace]
  refine ⟨v', ?_, hsame⟩
  rw [hindex, Forest.setText,
    Forest.updateAt_inside _ (elementAt?_of_body? hbody).1 (Forest.elementAt?_lt hinner)]
  refine Option.bind_eq_some_iff.mpr ⟨body', hbody', ?_⟩
  rw [hchildren]
  exact hv'

/-- A fit element at the start of a body is the preheader. -/
theorem preheader?_prepend {doc : Forest} {body : Visit} (h : doc.body? = some body) {e : Element}
    (he : isPreheader e = true) :
    ∃ v, preheader? (doc.prepend body.index (e.followedBy .nil)) = some v ∧ v.element = e := by
  obtain ⟨body', hbody', -, helement⟩ := Forest.body?_updateAt h (e.followedBy .nil).append
  refine ⟨⟨body'.index + 1, e, (body'.index, body'.element) :: body'.around⟩, ?_, rfl⟩
  refine Option.bind_eq_some_iff.mpr ⟨body', hbody', ?_⟩
  rw [Visit.children, helement]
  exact List.find?_cons_of_pos he

end Landmark

/-! ### Runs -/

namespace Adaptation

variable {a b : Adaptation} {name : String} {v v' : Visit}

theorem putToken_eq_self {e : Element} (he : a.document.elementAt? v.index = some e)
    (htoken : e.children = .text (nameToken name) .nil) (hname : name ∈ a.names) :
    a.putToken name v = a := by
  have hdocument : a.document.setText v.index (nameToken name) = a.document :=
    Forest.updateAt_eq_self he (by rw [← htoken])
  rw [putToken, hdocument]
  exact record_of_mem hname

theorem putToken_document (a : Adaptation) (name : String) (v : Visit) :
    (a.putToken name v).document = a.document.setText v.index (nameToken name) := by
  rw [putToken, record_document]

/-- A token is put into an element once, whatever else has been told in the meantime. -/
theorem putToken_again (he : a.document.elementAt? v.index = some v.element)
    (hindex : v'.index = v.index) (hdocument : b.document = (a.putToken name v).document)
    (hplaceholders : b.placeholders = (a.putToken name v).placeholders) :
    b.putToken name v' = b := by
  have hplace : b.document.elementAt? v'.index =
      some { v.element with children := .text (nameToken name) .nil } := by
    rw [hindex, hdocument, putToken_document]
    exact Forest.elementAt?_updateAt _ he
  have hname : name ∈ b.names := by
    rw [names, hplaceholders]
    exact name_mem_names_putToken a name v
  exact putToken_eq_self hplace rfl hname

theorem runTitle_runTitle (a : Adaptation) : a.runTitle.runTitle = a.runTitle := by
  cases htitle : Landmark.title? a.document with
  | none => simp only [runTitle, htitle]
  | some v =>
    have hrun : a.runTitle = { a.putToken "title" v with hasTitle := true } := by
      rw [runTitle, htitle]
    have htoken : trim (nameToken "title").toList ≠ [] := by decide
    obtain ⟨v', hv', hindex⟩ := Landmark.title?_setText htitle htoken
    rw [← putToken_document a "title" v] at hv'
    have hsame : a.runTitle.putToken "title" v' = a.runTitle :=
      putToken_again (Landmark.elementAt?_of_title? htitle).1 hindex (by rw [hrun]) (by rw [hrun])
    rw [hrun] at hsame ⊢
    rw [runTitle, hv']
    exact congrArg (fun b : Adaptation => { b with hasTitle := true }) hsame

theorem runPreheader_detected {fallback : Bool} (h : Landmark.preheader? a.document = some v) :
    (a.runPreheader fallback).runPreheader fallback = a.runPreheader fallback := by
  have hrun : a.runPreheader fallback = { a.putToken "preheader" v with supportsPreheader := true } := by
    rw [runPreheader, h]
  have hlength : 10 < (trim (nameToken "preheader").toList).length ∧
      (trim (nameToken "preheader").toList).length ≤ 200 := by decide
  obtain ⟨v', hv', hindex⟩ := Landmark.preheader?_setText h hlength
  rw [← putToken_document a "preheader" v] at hv'
  have hsame : (a.runPreheader fallback).putToken "preheader" v' = a.runPreheader fallback :=
    putToken_again (Landmark.elementAt?_of_preheader? h).1 hindex (by rw [hrun]) (by rw [hrun])
  rw [hrun] at hsame ⊢
  rw [runPreheader, hv']
  exact congrArg (fun b : Adaptation => { b with supportsPreheader := true }) hsame

theorem runPreheader_added {body : Visit} (hbody : a.document.body? = some body) (fallback : Bool) :
    (a.addHiddenLine body).runPreheader fallback = a.addHiddenLine body := by
  have hline : Landmark.isPreheader hiddenLine = true := by decide +kernel
  obtain ⟨v, hv, helement⟩ := Landmark.preheader?_prepend hbody hline
  have hdocument : (a.addHiddenLine body).document =
      a.document.prepend body.index (hiddenLine.followedBy .nil) := by
    rw [addHiddenLine, record_document]
  rw [← hdocument] at hv
  have he := (Landmark.elementAt?_of_preheader? hv).1
  have hsame : (a.addHiddenLine body).putToken "preheader" v = a.addHiddenLine body :=
    putToken_eq_self he (by rw [helement, hiddenLine]) (name_mem_names_record _ _)
  have hsupports : (a.addHiddenLine body).supportsPreheader = true :=
    same_of_report supportsPreheader (fun _ => rfl) (record_report _ _)
  rw [runPreheader, hv]
  simp only [hsame]
  rw [← hsupports]

theorem runPreheader_runPreheader (fallback : Bool) (a : Adaptation) :
    (a.runPreheader fallback).runPreheader fallback = a.runPreheader fallback := by
  cases hpreheader : Landmark.preheader? a.document with
  | some v => exact runPreheader_detected hpreheader
  | none =>
    have hrun : a.runPreheader fallback =
        if fallback then a.document.body?.elim a a.addHiddenLine else a := by
      rw [runPreheader, hpreheader]
    cases fallback with
    | false => simp only [hrun, Bool.false_eq_true, if_false]
    | true =>
      cases hbody : a.document.body? with
      | none => simp only [hrun, if_true, hbody, Option.elim_none]
      | some body =>
        rw [if_pos rfl, hbody, Option.elim_some] at hrun
        rw [hrun]
        exact runPreheader_added hbody true

end Adaptation

/-- The stages of the preheader and of the title do nothing when they are run once more, whatever
message they have been run on and whatever has been recorded of it. -/
theorem Stage.preheader_title_idempotent (o : AdaptOptions) (a : Adaptation) :
    preheader.run o (preheader.run o a) = preheader.run o a ∧
      title.run o (title.run o a) = title.run o a :=
  ⟨a.runPreheader_runPreheader o.preheaderFallback, a.runTitle_runTitle⟩

end EmailTemplate
