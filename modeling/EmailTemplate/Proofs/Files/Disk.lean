import EmailTemplate.Proofs.Files.Path

/-! Walking on a disk in memory, making directories on it, and writing files. -/

namespace EmailTemplate.Files.Disk

variable {d : Disk} {p q place : List String}

/-! ### Files and directories -/

theorem isDirectory_iff : d.isDirectory p = true ↔
    p = [] ∨ (∃ q ∈ d.directories, p <+: q) ∨ ∃ f ∈ d.files, p <+: f.1 ∧ p ≠ f.1 := by
  simp [isDirectory, or_assoc]

theorem isDirectory_of_prefix (hq : d.isDirectory q = true) (h : p <+: q) :
    d.isDirectory p = true := by
  rw [isDirectory_iff] at hq ⊢
  rcases hq with rfl | ⟨r, hr, hqr⟩ | ⟨f, hf, hqf, hne⟩
  · exact .inl (List.prefix_nil.mp h)
  · exact .inr (.inl ⟨r, hr, h.trans hqr⟩)
  · refine .inr (.inr ⟨f, hf, h.trans hqf, ?_⟩)
    rintro rfl
    exact hne (hqf.eq_of_length_le h.length_le)

theorem exists_of_file? {content : ByteArray} (h : d.file? p = some content) :
    ∃ f ∈ d.files, f.1 = p := by
  obtain ⟨f, hf, -⟩ := Option.map_eq_some_iff.mp h
  exact ⟨f, List.mem_of_find?_eq_some hf, by simpa using List.find?_some hf⟩

theorem exists_file?_of_mem {f : List String × ByteArray} (h : f ∈ d.files) :
    ∃ content, d.file? f.1 = some content := by
  have hfind : (d.files.find? (·.1 == f.1)).isSome = true :=
    List.find?_isSome.mpr ⟨f, h, beq_self_eq_true f.1⟩
  obtain ⟨g, hg⟩ := Option.isSome_iff_exists.mp hfind
  exact ⟨g.2, by rw [file?, hg, Option.map_some]⟩

/-! ### Walking -/

theorem follow_append (xs ys : List String) :
    d.follow p (xs ++ ys) = (d.follow p xs).bind fun q => d.follow q ys := by
  induction xs generalizing p with
  | nil => rfl
  | cons x xs ih =>
    simp only [List.cons_append, follow, ih]
    by_cases hdir : d.isDirectory p = true
    · by_cases hx : x = ".."
      · by_cases hp : p.isEmpty = true
        · simp [hdir, hx, hp, Except.bind]
        · simp [hdir, hx, hp]
      · simp [hdir, hx]
    · simp [hdir, Except.bind]

/-- The names that lead to a file lead there. -/
theorem follow_file {names : List String} (hnames : ∀ name ∈ names, name ≠ "..")
    (hfile : ∃ f ∈ d.files, f.1 = p ++ names) : d.follow p names = .ok (p ++ names) := by
  induction names generalizing p with
  | nil => simp [follow]
  | cons name rest ih =>
    have hdir : d.isDirectory p = true := by
      obtain ⟨f, hf, heq⟩ := hfile
      exact isDirectory_iff.mpr (.inr (.inr ⟨f, hf, by simp [heq], by simp [heq]⟩))
    have hname := hnames name List.mem_cons_self
    have hrest := ih (fun n hn => hnames n (List.mem_cons_of_mem name hn)) (p := p ++ [name])
      (by simpa using hfile)
    rw [follow]
    simpa [hdir, hname] using hrest

/-- More directories lead no other way. -/
theorem follow_mono {d' : Disk} (hdirs : ∀ p, d.isDirectory p = true → d'.isDirectory p = true)
    {names : List String} (h : d.follow p names = .ok q) : d'.follow p names = .ok q := by
  induction names generalizing p with
  | nil => exact h
  | cons name rest ih =>
    rw [follow] at h ⊢
    by_cases hdir : d.isDirectory p = true
    · by_cases hname : name = ".."
      · by_cases hp : p.isEmpty = true
        · simp [hdir, hname, hp] at h
        · simp only [hdir, hname, hp, hdirs p hdir] at h ⊢
          simpa using ih (by simpa using h)
      · simp only [hdir, hname, hdirs p hdir] at h ⊢
        simpa using ih (by simpa using h)
    · have hnone : d.isDirectory p = false := by simpa using hdir
      simp [hnone] at h

/-! ### Making directories -/

/-- The places that names go through. -/
def along (place : List String) : List String → List (List String)
  | [] => []
  | name :: rest =>
    if name = ".." then along place.dropLast rest
    else (place ++ [name]) :: along (place ++ [name]) rest

/-- Where names lead, if not out of the disk. -/
def lead? (place : List String) : List String → Option (List String)
  | [] => some place
  | name :: rest =>
    if name = ".." then if place.isEmpty then none else lead? place.dropLast rest
    else lead? (place ++ [name]) rest

theorem makeAlong_eq {names : List String} (hlead : lead? place names = some q)
    (hfree : ∀ p ∈ along place names, d.file? p = none) :
    d.makeAlong place names =
      .ok { d with directories := d.directories ++ along place names } := by
  induction names generalizing d place with
  | nil => simp [makeAlong, along]
  | cons name rest ih =>
    by_cases hname : name = ".."
    · by_cases hplace : place.isEmpty = true
      · simp [lead?, hname, hplace] at hlead
      · simp only [lead?, hname, hplace, if_true, along] at hlead hfree
        simp only [makeAlong, along, hname, hplace, if_true]
        exact ih hlead hfree
    · simp only [lead?, hname, if_false, along, List.forall_mem_cons] at hlead hfree
      have hnone : (d.file? (place ++ [name])).isSome = false := by simp [hfree.1]
      have hrest := ih (d := { d with directories := d.directories ++ [place ++ [name]] }) hlead
        hfree.2
      simp [makeAlong, along, hname, hnone, hrest]

theorem follow_eq {names : List String} (hlead : lead? place names = some q)
    (hplace : d.isDirectory place = true) (hdirs : ∀ p ∈ along place names, d.isDirectory p = true) :
    d.follow place names = .ok q ∧ d.isDirectory q = true := by
  induction names generalizing place with
  | nil =>
    obtain rfl := Option.some.inj hlead
    exact ⟨rfl, hplace⟩
  | cons name rest ih =>
    by_cases hname : name = ".."
    · by_cases hempty : place.isEmpty = true
      · simp [lead?, hname, hempty] at hlead
      · simp only [lead?, hname, hempty, if_true, along] at hlead hdirs
        have hback := isDirectory_of_prefix hplace (List.dropLast_prefix place)
        simpa [follow, hplace, hname, hempty] using ih hlead hback hdirs
    · simp only [lead?, hname, if_false, along, List.forall_mem_cons] at hlead hdirs
      simpa [follow, hplace, hname] using ih hlead hdirs.1 hdirs.2

theorem lead?_of_follow {names : List String} (h : d.follow place names = .ok q) :
    lead? place names = some q := by
  induction names generalizing place with
  | nil => simpa [follow, lead?] using h
  | cons name rest ih =>
    rw [follow] at h
    by_cases hdir : d.isDirectory place = true
    · by_cases hname : name = ".."
      · by_cases hempty : place.isEmpty = true
        · simp [hdir, hname, hempty] at h
        · simp only [hdir, hname, hempty] at h
          simpa [lead?, hname, hempty] using ih (by simpa using h)
      · simp only [hdir, hname] at h
        simpa [lead?, hname] using ih (by simpa using h)
    · have hnone : d.isDirectory place = false := by simpa using hdir
      simp [hnone] at h

theorem file?_makeAlong {d' : Disk} {names : List String} (h : d.makeAlong place names = .ok d') :
    d'.file? p = d.file? p := by
  induction names generalizing d place with
  | nil =>
    simp only [makeAlong, Except.ok.injEq] at h
    rw [h]
  | cons name rest ih =>
    rw [makeAlong] at h
    split at h
    · split at h
      · cases h
      · exact ih h
    · split at h
      · cases h
      · exact (ih h : _ = file? { d with directories := d.directories ++ [place ++ [name]] } p)

theorem lead?_append (xs ys : List String) :
    lead? p (xs ++ ys) = (lead? p xs).bind fun q => lead? q ys := by
  induction xs generalizing p with
  | nil => rfl
  | cons x xs ih =>
    simp only [List.cons_append, lead?, ih]
    split
    · split <;> rfl
    · rfl

theorem lead?_names {names : List String} (h : ∀ name ∈ names, name ≠ "..") :
    lead? p names = some (p ++ names) := by
  induction names generalizing p with
  | nil => simp [lead?]
  | cons name rest ih =>
    have hname := h name List.mem_cons_self
    rw [lead?, if_neg hname, ih fun n hn => h n (List.mem_cons_of_mem name hn)]
    simp

/-- A place that is above one that is gone through is gone through, or above the start. -/
theorem mem_along_of_prefix {names : List String} (hq : q ∈ along place names) (h : p <+: q) :
    p <+: place ∨ p ∈ along place names := by
  induction names generalizing place with
  | nil => simp [along] at hq
  | cons name rest ih =>
    by_cases hname : name = ".."
    · simp only [along, hname, if_true] at hq ⊢
      exact (ih hq).imp_left fun hp => hp.trans (List.dropLast_prefix place)
    · simp only [along, hname, if_false, List.mem_cons] at hq ⊢
      have hnext : p <+: place ++ [name] → p <+: place ∨ p = place ++ [name] := by
        intro hp
        rw [List.prefix_concat_iff] at hp
        exact hp.symm
      rcases hq with rfl | hq
      · exact (hnext h).imp_right .inl
      · rcases ih hq with hp | hp
        · exact (hnext hp).imp_right .inl
        · exact .inr (.inr hp)

/-- Names lead above the start, or to a place that they go through. -/
theorem lead?_mem {names : List String} (h : lead? place names = some q) :
    q <+: place ∨ q ∈ along place names := by
  induction names generalizing place with
  | nil =>
    obtain rfl := Option.some.inj h
    exact .inl (List.prefix_refl _)
  | cons name rest ih =>
    by_cases hname : name = ".."
    · by_cases hempty : place.isEmpty = true
      · simp [lead?, hname, hempty] at h
      · simp only [lead?, along, hname, hempty, if_true] at h ⊢
        exact (ih h).imp_left fun hq => hq.trans (List.dropLast_prefix place)
    · simp only [lead?, along, hname, if_false] at h ⊢
      rcases ih h with hq | hq
      · rw [List.prefix_concat_iff] at hq
        rcases hq with rfl | hq
        · exact .inr List.mem_cons_self
        · exact .inl hq
      · exact .inr (List.mem_cons_of_mem _ hq)

theorem isDirectory_made (places : List (List String)) :
    ({ d with directories := d.directories ++ places } : Disk).isDirectory p = true ↔
      d.isDirectory p = true ∨ ∃ q ∈ places, p <+: q := by
  simp only [isDirectory_iff, List.mem_append]
  constructor
  · rintro (h | ⟨q, hq | hq, hpq⟩ | h)
    · exact .inl (.inl h)
    · exact .inl (.inr (.inl ⟨q, hq, hpq⟩))
    · exact .inr ⟨q, hq, hpq⟩
    · exact .inl (.inr (.inr h))
  · rintro ((h | ⟨q, hq, hpq⟩ | h) | ⟨q, hq, hpq⟩)
    · exact .inl h
    · exact .inr (.inl ⟨q, .inl hq, hpq⟩)
    · exact .inr (.inr h)
    · exact .inr (.inl ⟨q, .inr hq, hpq⟩)

/-! ### Writing -/

theorem find?_putFile (content : ByteArray) (files : List (List String × ByteArray)) :
    ((putFile place content files).find? (·.1 == p)).map (·.2) =
      if p = place then some content else (files.find? (·.1 == p)).map (·.2) := by
  induction files with
  | nil =>
    by_cases h : p = place
    · simp [putFile, h]
    · simp [putFile, h, Ne.symm h]
  | cons f files ih =>
    by_cases hf : f.1 = place
    · by_cases h : p = place
      · simp [putFile, hf, h]
      · simp [putFile, hf, h, Ne.symm h]
    · by_cases hp : f.1 = p
      · have hne : p ≠ place := hp ▸ hf
        simp [putFile, hp, hne]
      · simp only [putFile, hf, if_false, List.find?_cons]
        have hfalse : (f.1 == p) = false := by simpa using hp
        simp only [hfalse, ih]

theorem mem_putFile {content : ByteArray} {files : List (List String × ByteArray)}
    {f : List String × ByteArray} (h : f ∈ putFile place content files) :
    f = (place, content) ∨ f ∈ files := by
  induction files with
  | nil => exact .inl (List.mem_singleton.mp h)
  | cons g files ih =>
    rw [putFile] at h
    split at h
    · rcases List.mem_cons.mp h with h | h
      · exact .inl h
      · exact .inr (List.mem_cons_of_mem g h)
    · rcases List.mem_cons.mp h with h | h
      · exact .inr (h ▸ List.mem_cons_self)
      · exact (ih h).imp_right (List.mem_cons_of_mem g)

theorem mem_putFile_self (place : List String) (content : ByteArray)
    (files : List (List String × ByteArray)) :
    ∃ g ∈ putFile place content files, g.1 = place := by
  induction files with
  | nil => exact ⟨_, List.mem_cons_self, rfl⟩
  | cons f files ih =>
    rw [putFile]
    split
    · exact ⟨_, List.mem_cons_self, rfl⟩
    · obtain ⟨g, hg, heq⟩ := ih
      exact ⟨g, List.mem_cons_of_mem _ hg, heq⟩

theorem exists_mem_putFile (content : ByteArray) {files : List (List String × ByteArray)}
    {f : List String × ByteArray} (h : f ∈ files) :
    ∃ g ∈ putFile place content files, g.1 = f.1 := by
  induction files with
  | nil => simp at h
  | cons g files ih =>
    rw [putFile]
    split
    · next hg =>
      rcases List.mem_cons.mp h with rfl | h
      · exact ⟨_, List.mem_cons_self, hg.symm⟩
      · exact ⟨f, List.mem_cons_of_mem _ h, rfl⟩
    · rcases List.mem_cons.mp h with rfl | h
      · exact ⟨_, List.mem_cons_self, rfl⟩
      · obtain ⟨g', hg', heq⟩ := ih h
        exact ⟨g', List.mem_cons_of_mem _ hg', heq⟩

section Put

variable (place : List String) (content : ByteArray)

theorem file?_put : ({ d with files := putFile place content d.files } : Disk).file? p =
    if p = place then some content else d.file? p :=
  find?_putFile content d.files

theorem isDirectory_put :
    ({ d with files := putFile place content d.files } : Disk).isDirectory p = true ↔
      d.isDirectory p = true ∨ (p <+: place ∧ p ≠ place) := by
  simp only [isDirectory_iff]
  constructor
  · rintro (h | h | ⟨f, hf, hpf, hne⟩)
    · exact .inl (.inl h)
    · exact .inl (.inr (.inl h))
    · rcases mem_putFile hf with rfl | hf
      · exact .inr ⟨hpf, hne⟩
      · exact .inl (.inr (.inr ⟨f, hf, hpf, hne⟩))
  · rintro ((h | h | ⟨f, hf, hpf, hne⟩) | ⟨hp, hne⟩)
    · exact .inl h
    · exact .inr (.inl h)
    · obtain ⟨g, hg, heq⟩ := exists_mem_putFile content hf
      exact .inr (.inr ⟨g, hg, by rwa [heq], by rwa [heq]⟩)
    · obtain ⟨g, hg, heq⟩ := mem_putFile_self place content d.files
      exact .inr (.inr ⟨g, hg, by rwa [heq], by rwa [heq]⟩)

end Put

theorem write_eq {path text : String} (hlocate : d.locate path = .ok place)
    (hdir : d.isDirectory place = false) (hasks : asksDirectory path = false) :
    d.write path text = .ok { d with files := putFile place text.toUTF8 d.files } := by
  rw [write, hlocate]
  simp [bind, Except.bind, hdir, hasks, pure, Except.pure]

theorem write_eq_ok {path text : String} {d' : Disk} (h : d.write path text = .ok d') :
    ∃ place, d.locate path = .ok place ∧
      d' = { d with files := putFile place text.toUTF8 d.files } := by
  rw [write] at h
  cases hlocate : d.locate path with
  | error e =>
    rw [hlocate] at h
    cases h
  | ok place =>
    refine ⟨place, rfl, ?_⟩
    by_cases hrefused : (d.isDirectory place || asksDirectory path) = true
    · simp [hlocate, bind, Except.bind, hrefused, throw, throwThe, MonadExceptOf.throw] at h
    · simp only [hlocate, bind, Except.bind, hrefused] at h
      exact (Except.ok.inj h).symm

theorem lead?_of_locate {path : String} (h : d.locate path = .ok place) :
    lead? [] (parts path) = some place := by
  rw [locate] at h
  split at h
  · cases h
  · exact lead?_of_follow h

theorem read_eq {path : String} {content : ByteArray} (hlocate : d.locate path = .ok place)
    (hfile : d.file? place = some content) (hasks : asksDirectory path = false) :
    d.read path = .ok content := by
  rw [read, hlocate]
  simp [bind, Except.bind, hfile, hasks, pure, Except.pure]

end EmailTemplate.Files.Disk
