import EmailTemplate.Proofs.Html.Tally
import EmailTemplate.Proofs.Text.Blank

/-! What a search in document order finds after the content of an element has changed. All visits up to
that element stay as they are but for the content of the elements around it. -/

namespace EmailTemplate.Html

/-- The tags and attributes of elements, without their places and contents. -/
def kinds (around : List (Nat × Element)) : List (Tag × List Attribute) :=
  around.map fun a => (a.2.tag, a.2.attributes)

theorem kinds_cons {n n' : Nat} {tag : Tag} {attributes : List Attribute} {children new : Forest}
    {around around' : List (Nat × Element)} (h : kinds around = kinds around') :
    kinds ((n, ⟨tag, attributes, children⟩) :: around) =
      kinds ((n', ⟨tag, attributes, new⟩) :: around') :=
  congrArg ((tag, attributes) :: ·) h

def Visit.setting (v : Visit) : List (Tag × List Attribute) := kinds v.around

/-- A visit before and after a change that leaves all tags and attributes as they are. The content may be
another one only at the changed element and around it. -/
structure Visit.Alike (v : Visit) (changed : Element) (v' : Visit) : Prop where
  tag : v.element.tag = v'.element.tag
  attributes : v.element.attributes = v'.element.attributes
  setting : v.setting = v'.setting
  content : v.element = v'.element ∨
    changed.textContent.toList <:+: v.element.textContent.toList

theorem Visit.Alike.of_element {changed : Element} {v v' : Visit} (h : v.element = v'.element)
    (hsetting : v.setting = v'.setting) : v.Alike changed v' where
  tag := by rw [h]
  attributes := by rw [h]
  setting := hsetting
  content := .inl h

namespace Forest

theorem index_of_mem_visitsFrom {f : Forest} {n : Nat} {around : List (Nat × Element)} {v : Visit}
    (h : v ∈ f.visitsFrom n around) :
    ∃ j, v.index = n + j ∧ f.elementAt? j = some v.element := by
  obtain ⟨j, hj⟩ := List.mem_iff_getElem?.mp h
  have hplace := getElem?_visitsFrom f n around j
  rw [hj, Option.map_some, eq_comm, Option.map_eq_some_iff] at hplace
  obtain ⟨e, he, heq⟩ := hplace
  obtain ⟨hindex, rfl⟩ := Prod.mk.inj heq
  exact ⟨j, hindex.symm, he⟩

/-! ### Searching -/

theorem index_getElem_visits {f : Forest} {i : Nat} (h : i < f.visits.length) :
    f.visits[i].index = i :=
  (elementAt?_of_visits (List.getElem?_eq_getElem h)).1

/-- The places of the elements rise in document order. -/
theorem pairwise_visits (f : Forest) : f.visits.Pairwise (·.index < ·.index) := by
  refine List.pairwise_iff_getElem.mpr fun i j hi hj hij => ?_
  rwa [index_getElem_visits, index_getElem_visits]

/-- A search finds the first element that fits in document order. -/
theorem find?_visits_eq_some_iff {f : Forest} {p : Visit → Bool} {v : Visit} :
    f.visits.find? p = some v ↔
      p v = true ∧ v ∈ f.visits ∧ ∀ w ∈ f.visits, w.index < v.index → p w = false := by
  rw [List.find?_eq_some_iff_getElem]
  refine and_congr_right fun _ => ⟨?_, ?_⟩
  · rintro ⟨i, hi, rfl, hfirst⟩
    refine ⟨List.getElem_mem hi, fun w hw hlt => ?_⟩
    obtain ⟨j, hj, rfl⟩ := List.mem_iff_getElem.mp hw
    rw [index_getElem_visits, index_getElem_visits] at hlt
    simpa using hfirst j hlt
  · rintro ⟨hv, hfirst⟩
    obtain ⟨i, hi, rfl⟩ := List.mem_iff_getElem.mp hv
    refine ⟨i, hi, rfl, fun j hj => ?_⟩
    have hjlength : j < f.visits.length := Nat.lt_trans hj hi
    have hno := hfirst f.visits[j] (List.getElem_mem hjlength)
      (by rwa [index_getElem_visits, index_getElem_visits])
    simp [hno]

/-- A visit of a document with some property, with none before it. -/
structure First (f : Forest) (p : Visit → Prop) (v : Visit) : Prop where
  mem : v ∈ f.visits
  holds : p v
  before : ∀ w ∈ f.visits, w.index < v.index → ¬ p w

theorem First.of_find? {f : Forest} {p : Visit → Prop} {q : Visit → Bool}
    (hq : ∀ w, q w = true ↔ p w) {v : Visit} (h : f.visits.find? q = some v) : f.First p v := by
  obtain ⟨hv, hmem, hbefore⟩ := find?_visits_eq_some_iff.mp h
  refine ⟨hmem, (hq v).mp hv, fun w hw hlt => ?_⟩
  rw [← hq, hbefore w hw hlt]
  simp

theorem not_of_find?_eq_none {f : Forest} {p : Visit → Prop} {q : Visit → Bool}
    (hq : ∀ w, q w = true ↔ p w) (h : f.visits.find? q = none) : ∀ w ∈ f.visits, ¬ p w :=
  fun w hw hp => List.find?_eq_none.mp h w hw ((hq w).mpr hp)

theorem eq_of_index_eq {f : Forest} {v w : Visit} (hv : v ∈ f.visits) (hw : w ∈ f.visits)
    (h : v.index = w.index) : v = w := by
  obtain ⟨i, hi⟩ := List.mem_iff_getElem?.mp hv
  obtain ⟨j, hj⟩ := List.mem_iff_getElem?.mp hw
  rw [(elementAt?_of_visits hi).1, (elementAt?_of_visits hj).1] at h
  rw [h, hj] at hi
  exact (Option.some.inj hi).symm

/-! ### Visits after a change -/

/-- The same elements are visited, wherever the first of them stands. -/
theorem exists_visit_elsewhere {f : Forest} {n n' : Nat} {around around' : List (Nat × Element)}
    (haround : kinds around = kinds around') {v' : Visit} (h : v' ∈ f.visitsFrom n' around') :
    ∃ v ∈ f.visitsFrom n around, v.element = v'.element ∧ v.setting = v'.setting ∧
      v.index + n' = v'.index + n := by
  induction f generalizing n n' around around' with
  | nil => exact absurd h List.not_mem_nil
  | text s rest ih => exact ih haround h
  | comment s rest ih => exact ih haround h
  | doctype name rest ih => exact ih haround h
  | element tag attributes children rest ihc ihr =>
    rcases List.mem_cons.mp h with rfl | h
    · exact ⟨_, List.mem_cons_self, rfl, haround, Nat.add_comm n n'⟩
    · rcases List.mem_append.mp h with h | h
      · obtain ⟨v, hv, helement, hsetting, hindex⟩ := ihc (n := n + 1) (kinds_cons haround) h
        refine ⟨v, List.mem_cons_of_mem _ (List.mem_append_left _ hv), helement, hsetting, ?_⟩
        omega
      · obtain ⟨v, hv, helement, hsetting, hindex⟩ := ihr (n := n + 1 + children.count) haround h
        refine ⟨v, List.mem_cons_of_mem _ (List.mem_append_right _ hv), helement, hsetting, ?_⟩
        omega

/-- What comes after a changed element may have another place, but nothing there has changed. -/
theorem exists_visit_later {tag : Tag} {attributes : List Attribute} {children rest : Forest}
    {n m last : Nat} {around around' : List (Nat × Element)} (haround : kinds around = kinds around')
    (hm : last < m) {v' : Visit} (h : v' ∈ rest.visitsFrom m around') (changed : Element) :
    ∃ v ∈ (element tag attributes children rest).visitsFrom n around,
      v.Alike changed v' ∧ (v'.index ≤ last → v.index = v'.index) := by
  obtain ⟨v, hv, helement, hsetting, -⟩ :=
    exists_visit_elsewhere (n := n + 1 + children.count) haround h
  obtain ⟨j, hindex, -⟩ := index_of_mem_visitsFrom h
  exact ⟨v, List.mem_cons_of_mem _ (List.mem_append_right _ hv),
    .of_element helement hsetting, fun hle => by omega⟩

section Change

variable {e : Element} {change : Element → Element} (htag : (change e).tag = e.tag)
  (hattributes : (change e).attributes = e.attributes)
include htag hattributes

/-- What is visited after a change was visited before it, unless it is inside the changed element. -/
theorem exists_visit_of_updateAt {f : Forest} {i n : Nat} {around around' : List (Nat × Element)}
    (haround : kinds around = kinds around') (he : f.elementAt? i = some e) {v' : Visit}
    (h : v' ∈ (f.updateAt i change).visitsFrom n around')
    (hout : v'.index ≤ n + i ∨ (change e).children.count = 0) :
    ∃ v ∈ f.visitsFrom n around, v.Alike e v' ∧ (v'.index ≤ n + i → v.index = v'.index) := by
  induction f, i, he using elementAt?_induction generalizing n around around' with
  | text s rest i _ ih => exact ih haround h hout
  | comment s rest i _ ih => exact ih haround h hout
  | doctype name rest i _ ih => exact ih haround h hout
  | here rest =>
    rcases List.mem_cons.mp h with rfl | h
    · exact ⟨_, List.mem_cons_self,
        ⟨htag.symm, hattributes.symm, haround, .inr List.infix_rfl⟩, fun _ => rfl⟩
    · rcases List.mem_append.mp h with h | h
      · obtain ⟨j, hindex, hj⟩ := index_of_mem_visitsFrom h
        have hlt : j < (change e).children.count := elementAt?_lt hj
        omega
      · exact exists_visit_later haround (by omega) h e
  | inner tag attributes children rest i hi he ih =>
    rw [updateAt_inner hi] at h
    rcases List.mem_cons.mp h with rfl | h
    · have hinside := textContent_infix_of_mem (mem_elements_of_elementAt? he)
      exact ⟨_, List.mem_cons_self, ⟨rfl, rfl, haround, .inr hinside⟩, fun _ => rfl⟩
    · rcases List.mem_append.mp h with h | h
      · obtain ⟨v, hv, halike, hindex⟩ := ih (kinds_cons haround) h (by omega)
        exact ⟨v, List.mem_cons_of_mem _ (List.mem_append_left _ hv), halike,
          fun hle => hindex (by omega)⟩
      · have hlt : i < (children.updateAt i change).count :=
          elementAt?_lt (elementAt?_updateAt change he)
        exact exists_visit_later haround (by omega) h e
  | later tag attributes children rest i _ ih =>
    rw [updateAt_later] at h
    rcases List.mem_cons.mp h with rfl | h
    · exact ⟨_, List.mem_cons_self, .of_element rfl haround, fun _ => rfl⟩
    · rcases List.mem_append.mp h with h | h
      · have hinner : kinds ((n, ⟨tag, attributes, children⟩) :: around) =
            kinds ((n, ⟨tag, attributes, children⟩) :: around') := kinds_cons haround
        obtain ⟨v, hv, helement, hsetting, hindex⟩ := exists_visit_elsewhere (n := n + 1) hinner h
        exact ⟨v, List.mem_cons_of_mem _ (List.mem_append_left _ hv),
          .of_element helement hsetting, fun _ => by omega⟩
      · obtain ⟨v, hv, halike, hindex⟩ := ih haround h (by omega)
        exact ⟨v, List.mem_cons_of_mem _ (List.mem_append_right _ hv), halike,
          fun hle => hindex (by omega)⟩

/-- Nothing is found after a change if nothing was found before it. -/
theorem find?_visits_updateAt_eq_none {f : Forest} {i : Nat} {p : Visit → Bool}
    (h : f.visits.find? p = none) (he : f.elementAt? i = some e)
    (hleaf : (change e).children.count = 0)
    (hkept : ∀ w w', w.Alike e w' → p w' = true → p w = true) :
    (f.updateAt i change).visits.find? p = none := by
  rw [List.find?_eq_none] at h ⊢
  intro w' hw' hfits
  obtain ⟨w, hw, halike, -⟩ := exists_visit_of_updateAt htag hattributes rfl he hw' (.inr hleaf)
  exact h w hw (hkept w w' halike hfits)

end Change

/-- What is found is found again after it has changed, if it still fits. -/
theorem find?_visits_updateAt {f : Forest} {v : Visit} {p : Visit → Bool}
    (h : f.visits.find? p = some v) (change : Element → Element)
    (htag : (change v.element).tag = v.element.tag)
    (hattributes : (change v.element).attributes = v.element.attributes)
    (hkept : ∀ w w', w.Alike v.element w' → p w' = true → p w = true)
    (hnew : ∀ v', v.Alike v.element v' → v'.element = change v.element → p v' = true) :
    ∃ v', (f.updateAt v.index change).visits.find? p = some v' ∧ v'.index = v.index ∧
      v'.element = change v.element := by
  obtain ⟨hfits, hmem, hfirst⟩ := find?_visits_eq_some_iff.mp h
  have he := elementAt?_of_mem_visits hmem
  obtain ⟨v', hv', helement⟩ := exists_visit (elementAt?_updateAt change he)
  have hindex := (elementAt?_of_visits hv').1
  have hmem' := List.mem_of_getElem? hv'
  refine ⟨v', find?_visits_eq_some_iff.mpr ⟨?_, hmem', fun w' hw' hlt => ?_⟩, hindex, helement⟩
  · obtain ⟨w, hw, halike, hplace⟩ :=
      exists_visit_of_updateAt htag hattributes rfl he hmem' (.inl (by omega))
    obtain rfl := eq_of_index_eq hw hmem ((hplace (by omega)).trans hindex)
    exact hnew v' halike helement
  · obtain ⟨w, hw, halike, hplace⟩ :=
      exists_visit_of_updateAt htag hattributes rfl he hw' (.inl (by omega))
    have hno := hfirst w hw (by rw [hplace (by omega)]; omega)
    rw [Bool.eq_false_iff] at hno ⊢
    exact fun hyes => hno (hkept w w' halike hyes)

/-- A body stays the body when its content changes. -/
theorem body?_updateAt {f : Forest} {body : Visit} (h : f.body? = some body)
    (change : Forest → Forest) :
    ∃ body', (f.updateAt body.index fun e => { e with children := change e.children }).body? =
        some body' ∧ body'.index = body.index ∧
      body'.element = { body.element with children := change body.element.children } := by
  have hbody : body.element.isTag "body" = true :=
    List.find?_some (p := fun v : Visit => v.element.isTag "body") h
  refine find?_visits_updateAt h _ rfl rfl (fun w w' halike hw' => ?_) fun v' _ helement => ?_
  · rwa [Element.isTag, halike.tag]
  · rw [helement]
    exact hbody

/-- Changing an element of a row changes what a search in the row finds, if the search found it and
would find what becomes of it. -/
theorem find?_rootVisitsFrom_updateAt {g : Forest} {n m j : Nat} {around : List (Nat × Element)}
    {p : Element → Bool} {v : Visit}
    (h : ((g.rootVisitsFrom m around).take n).find? (fun v => p v.element) = some v)
    (hindex : v.index = m + j) (change : Element → Element) (hnew : p (change v.element) = true)
    (around' : List (Nat × Element)) :
    ∃ v', (((g.updateAt j change).rootVisitsFrom m around').take n).find? (fun v => p v.element) =
        some v' ∧ v'.index = v.index ∧ v'.element = change v.element := by
  induction g generalizing n m j with
  | nil => simp [rootVisitsFrom] at h
  | text s rest ih => exact ih h hindex
  | comment s rest ih => exact ih h hindex
  | doctype name rest ih => exact ih h hindex
  | element tag attributes children rest _ ih =>
    cases n with
    | zero => simp at h
    | succ n =>
      rw [rootVisitsFrom, List.take_succ_cons, List.find?_cons] at h
      split at h
      · next hfits =>
        obtain rfl := Option.some.inj h
        obtain rfl : j = 0 := by
          simp only at hindex
          omega
        refine ⟨⟨m, change ⟨tag, attributes, children⟩, around'⟩, ?_, rfl, rfl⟩
        rw [updateAt, editAt, Element.followedBy, rootVisitsFrom, List.take_succ_cons]
        exact List.find?_cons_of_pos hnew
      · next hno =>
        have hmem := List.mem_of_mem_take (List.mem_of_find?_eq_some h)
        obtain ⟨k, hk, -⟩ := elementAt?_of_mem_rootVisitsFrom hmem
        obtain rfl : j = children.count + k + 1 := by omega
        obtain ⟨v', hv', hsame⟩ := ih (j := k) h hk
        refine ⟨v', ?_, hsame⟩
        rw [updateAt_later, rootVisitsFrom, List.take_succ_cons,
          List.find?_cons_of_neg (by simp [hno])]
        exact hv'

end Forest

end EmailTemplate.Html
