import EmailTemplate.Proofs.Template.Token

/-! Data without braces: no text that it puts into a template can be taken for syntax. -/

namespace EmailTemplate.Template

open Json

/-! ### Numbers -/

theorem isBrace_of_isDigit {c : Char} (h : c.isDigit = true) : isBrace c = false := by
  have hopen : c ≠ '{' := by
    rintro rfl
    simp at h
  have hclose : c ≠ '}' := by
    rintro rfl
    simp at h
  simp [isBrace, hopen, hclose]

theorem toDigits_braceFree (n : Nat) : BraceFree (Nat.toDigits 10 n) := fun _ hc =>
  isBrace_of_isDigit (Nat.isDigit_of_mem_toDigits (by decide) (by decide) hc)

theorem toString_braceFree (n : Nat) : BraceFree (toString n).toList := by
  simpa using toDigits_braceFree n

theorem BraceFree.of_subset {s t : List Char} (h : BraceFree t) (hs : s ⊆ t) : BraceFree s :=
  fun c hc => h c (hs hc)

theorem replicate_zero_braceFree (n : Nat) : BraceFree (List.replicate n '0') := by
  intro c hc
  rw [List.eq_of_mem_replicate hc]
  decide

theorem integerText_braceFree (n : Int) : BraceFree (integerText n).toList := by
  have h := toString_braceFree n.natAbs
  rw [integerText]
  split
  · rw [String.toList_append, braceFree_append]
    exact ⟨by decide, h⟩
  · exact h

theorem doubleText_braceFree (d : Double) : BraceFree (doubleText d).toList := by
  have hsign : BraceFree (if d.negative then "-" else "").toList := by
    cases d.negative <;> decide
  have hdigits := toDigits_braceFree d.shortest.digits
  have htake : ∀ n, BraceFree ((Nat.toDigits 10 d.shortest.digits).take n) := fun n =>
    hdigits.of_subset (List.take_subset _ _)
  have hdrop : ∀ n, BraceFree ((Nat.toDigits 10 d.shortest.digits).drop n) := fun n =>
    hdigits.of_subset (List.drop_subset _ _)
  have hzeros : ∀ n, BraceFree (List.replicate n '0') := replicate_zero_braceFree
  have hpoint : isBrace '.' = false := by decide
  have hzero : isBrace '0' = false := by decide
  have hpower : isBrace 'e' = false := by decide
  rw [doubleText]
  split
  · rw [String.toList_append, braceFree_append]
    exact ⟨hsign, by decide⟩
  · simp only [String.toList_append, String.toList_ofList, braceFree_append]
    refine ⟨hsign, ?_⟩
    split_ifs
    · simp [hdigits, hzeros, BraceFree.nil, hpoint, hzero]
    · simp [htake, hdrop, hpoint]
    · simp [hdigits, hzeros, hpoint, hzero]
    all_goals
      simp only [braceFree_append, braceFree_cons]
      refine ⟨⟨htake 1, ?_⟩, hpower, by decide, toDigits_braceFree _⟩
    · exact BraceFree.nil
    · exact BraceFree.nil
    · exact ⟨hpoint, hdrop 1⟩
    · exact ⟨hpoint, hdrop 1⟩

theorem plain_braceFree (n : Number) : BraceFree n.plain.toList := by
  cases n with
  | integer n => exact integerText_braceFree n
  | double d =>
    rw [Number.plain]
    split
    · rw [String.toList_append, braceFree_append]
      refine ⟨?_, toString_braceFree _⟩
      cases d.negative <;> decide
    · exact doubleText_braceFree d

end EmailTemplate.Template

/-! ### Values -/

namespace EmailTemplate.Json

mutual

def Value.texts : Value → List String
  | .string s => [s]
  | .array items => textsOfItems items
  | .object members => textsOfMembers members
  | _ => []

def textsOfItems : List Value → List String
  | [] => []
  | v :: rest => v.texts ++ textsOfItems rest

def textsOfMembers : List (String × Value) → List String
  | [] => []
  | (key, v) :: rest => key :: (v.texts ++ textsOfMembers rest)

end

/-- No key and no string of the value has a brace. -/
def Value.BraceFree (v : Value) : Prop := ∀ s ∈ v.texts, Template.BraceFree s.toList

instance (v : Value) : Decidable v.BraceFree := List.decidableBAll _ v.texts

theorem texts_subset_of_item {v : Value} {items : List Value} (h : v ∈ items) :
    v.texts ⊆ textsOfItems items := by
  induction items with
  | nil => simp at h
  | cons w rest ih =>
    rw [textsOfItems]
    rcases List.mem_cons.mp h with rfl | h
    · exact List.subset_append_left _ _
    · exact List.Subset.trans (ih h) (List.subset_append_right _ _)

theorem texts_subset_of_member {m : String × Value} {members : List (String × Value)}
    (h : m ∈ members) : m.2.texts ⊆ textsOfMembers members := by
  induction members with
  | nil => simp at h
  | cons n rest ih =>
    rw [textsOfMembers]
    refine List.Subset.trans ?_ (List.subset_cons_self _ _)
    rcases List.mem_cons.mp h with rfl | h
    · exact List.subset_append_left _ _
    · exact List.Subset.trans (ih h) (List.subset_append_right _ _)

theorem key_mem_texts {m : String × Value} {members : List (String × Value)}
    (h : m ∈ members) : m.1 ∈ textsOfMembers members := by
  induction members with
  | nil => simp at h
  | cons n rest ih =>
    rw [textsOfMembers]
    rcases List.mem_cons.mp h with rfl | h
    · exact List.mem_cons_self
    · exact List.mem_cons_of_mem _ (List.mem_append_right _ (ih h))

theorem Value.BraceFree.item {v : Value} {items : List Value} (h : (Value.array items).BraceFree)
    (hv : v ∈ items) : v.BraceFree :=
  fun s hs => h s (texts_subset_of_item hv hs)

theorem Value.BraceFree.member {m : String × Value} {members : List (String × Value)}
    (h : (Value.object members).BraceFree) (hm : m ∈ members) : m.2.BraceFree :=
  fun s hs => h s (texts_subset_of_member hm hs)

theorem Value.BraceFree.key {m : String × Value} {members : List (String × Value)}
    (h : (Value.object members).BraceFree) (hm : m ∈ members) : Template.BraceFree m.1.toList :=
  h m.1 (key_mem_texts hm)

theorem mem_of_lookup? {α : Type} {key : String} {v : α} {members : List (String × α)}
    (h : lookup? key members = some v) : (key, v) ∈ members := by
  induction members with
  | nil => simp [lookup?] at h
  | cons m rest ih =>
    rw [lookup?] at h
    split at h
    · next hk =>
      obtain rfl := Option.some.inj h
      exact hk ▸ List.mem_cons_self
    · exact List.mem_cons_of_mem _ (ih h)

theorem mem_insertMember {α : Type} {key : String} {v : α} {members : List (String × α)}
    {m : String × α} (h : m ∈ insertMember key v members) : m = (key, v) ∨ m ∈ members := by
  induction members with
  | nil => simpa [insertMember] using h
  | cons n rest ih =>
    simp only [insertMember] at h
    split at h
    · simpa using h
    · split at h
      · rcases List.mem_cons.mp h with h | h
        · exact .inl h
        · exact .inr (List.mem_cons_of_mem _ h)
      · rcases List.mem_cons.mp h with rfl | h
        · exact .inr List.mem_cons_self
        · exact (ih h).imp id (List.mem_cons_of_mem _)

theorem Value.BraceFree.get? {key : String} {v w : Value} (h : v.BraceFree)
    (hw : v.get? key = some w) : w.BraceFree := by
  cases v with
  | object members => exact h.member (mem_of_lookup? hw)
  | _ => simp [Value.get?] at hw

end EmailTemplate.Json

namespace EmailTemplate.Template

open Json

theorem intercalate_braceFree {texts : List String} (h : ∀ s ∈ texts, BraceFree s.toList) :
    BraceFree (",".intercalate texts).toList := by
  induction texts with
  | nil => simpa using BraceFree.nil
  | cons s rest ih =>
    cases rest with
    | nil => simpa using h s (by simp)
    | cons t rest =>
      rw [String.intercalate_cons_cons, String.toList_append, String.toList_append,
        braceFree_append, braceFree_append]
      exact ⟨⟨h s (by simp), by decide⟩, ih fun u hu => h u (List.mem_cons_of_mem _ hu)⟩

mutual

theorem stringify_braceFree : ∀ {v : Value}, v.BraceFree → BraceFree v.stringify.toList
  | .null, _ => BraceFree.nil
  | .bool b, _ => by cases b <;> decide
  | .number n, _ => plain_braceFree n
  | .string s, h => h s (by simp [Value.texts])
  | .array _, h => intercalate_braceFree (stringifyItems_braceFree fun _ hv => h.item hv)
  | .object _, _ => by
    rw [Value.stringify]
    decide

theorem stringifyItems_braceFree : ∀ {items : List Value}, (∀ v ∈ items, v.BraceFree) →
    ∀ s ∈ stringifyItems items, BraceFree s.toList
  | [], _, s, hs => by simp [stringifyItems] at hs
  | v :: rest, h, s, hs => by
    rw [stringifyItems, List.mem_cons] at hs
    rcases hs with rfl | hs
    · exact stringify_braceFree (h v List.mem_cons_self)
    · exact stringifyItems_braceFree (fun w hw => h w (List.mem_cons_of_mem _ hw)) s hs

end

/-- The texts that are bound have no braces. -/
def BraceFreeBindings (values : Bindings) : Prop := ∀ p ∈ values, BraceFree p.2.toList

theorem BraceFreeBindings.insert {values : Bindings} (h : BraceFreeBindings values) (path : String)
    {text : String} (ht : BraceFree text.toList) :
    BraceFreeBindings (insertMember path text values) := by
  intro p hp
  rcases mem_insertMember hp with rfl | hp
  · exact ht
  · exact h p hp

mutual

theorem flattenAt_braceFree (path : String) {done : Bindings} (hd : BraceFreeBindings done) :
    ∀ {v : Value}, v.BraceFree → BraceFreeBindings (flattenAt path done v)
  | .object _, h => flattenMembers_braceFree path hd fun _ hm => h.member hm
  | .array _, _ => hd
  | .null, _ => hd.insert path BraceFree.nil
  | .bool b, h => hd.insert path (stringify_braceFree h)
  | .number n, h => hd.insert path (stringify_braceFree h)
  | .string s, h => hd.insert path (h s (by simp [Value.texts]))

theorem flattenMembers_braceFree (path : String) {done : Bindings} (hd : BraceFreeBindings done) :
    ∀ {members : List (String × Value)}, (∀ m ∈ members, m.2.BraceFree) →
      BraceFreeBindings (flattenMembers path done members)
  | [], _ => hd
  | (key, _) :: _, h =>
    flattenMembers_braceFree path
      (flattenAt_braceFree (joinPath path key) hd (h _ List.mem_cons_self))
      fun m hm => h m (List.mem_cons_of_mem _ hm)

end

theorem flatten_braceFree {data : Value} (h : data.BraceFree) :
    BraceFreeBindings (flatten data) := by
  cases data with
  | object members =>
    exact flattenMembers_braceFree "" (by simp [BraceFreeBindings]) fun _ hm => h.member hm
  | _ => simp [flatten, BraceFreeBindings]

end EmailTemplate.Template
