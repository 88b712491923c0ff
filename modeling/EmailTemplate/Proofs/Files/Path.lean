import EmailTemplate.Files.Disk
import EmailTemplate.Proofs.Text.Splitting
import Mathlib.Data.List.Infix

/-! Names in paths. A path that is joined of names has these names, behind those of the path before. -/

namespace EmailTemplate.Files

open Text

/-- A name that a file or a directory can have. -/
def IsFileName (name : String) : Prop :=
  name ≠ "" ∧ name ≠ "." ∧ name ≠ ".." ∧ '/' ∉ name.toList

instance (name : String) : Decidable (IsFileName name) :=
  inferInstanceAs (Decidable (name ≠ "" ∧ name ≠ "." ∧ name ≠ ".." ∧ '/' ∉ name.toList))

theorem parts_slash (u v : List Char) :
    parts (String.ofList (u ++ '/' :: v)) =
      parts (String.ofList u) ++ parts (String.ofList v) := by
  have hsplit : splitBy (· == '/') (u ++ '/' :: v) =
      splitBy (· == '/') u ++ splitBy (· == '/') v := by
    apply splitBy_append
    rfl
  simp only [parts, String.toList_ofList, hsplit, List.map_append, List.filter_append]

theorem parts_name {name : String} (h : IsFileName name) : parts name = [name] := by
  obtain ⟨hempty, hpoint, -, hslash⟩ := h
  have hsplit : splitBy (· == '/') name.toList = [name.toList] := by
    refine splitBy_of_forall fun c hc => ?_
    have hne : c ≠ '/' := fun he => hslash (he ▸ hc)
    simpa using hne
  simp [parts, hsplit, hempty, hpoint]

theorem parts_ofParts {names : List String} (hne : names ≠ [])
    (h : ∀ name ∈ names, IsFileName name) : parts (ofParts names) = names := by
  induction names with
  | nil => exact absurd rfl hne
  | cons name rest ih =>
    have hname := h name List.mem_cons_self
    cases rest with
    | nil => simpa [ofParts] using parts_name hname
    | cons next rest =>
      have hrest := ih (by simp) fun n hn => h n (List.mem_cons_of_mem name hn)
      have htext : ofParts (name :: next :: rest) =
          String.ofList (name.toList ++ '/' :: (ofParts (next :: rest)).toList) := by
        rw [← String.toList_inj, String.toList_ofList, ofParts, String.intercalate_cons_cons]
        simp [ofParts]
      rw [htext, parts_slash, String.ofList_toList, String.ofList_toList, parts_name hname, hrest]
      rfl

/-- A path ends in a slash, or gets one before the names that are joined to it. -/
theorem join_cases (path : String) {names : List String} (hne : names ≠ []) :
    (∃ u, path = String.ofList (u ++ ['/']) ∧
        join path names = String.ofList (u ++ '/' :: (ofParts names).toList)) ∨
      join path names = String.ofList (path.toList ++ '/' :: (ofParts names).toList) := by
  have hempty : names.isEmpty = false := by simpa using hne
  by_cases hlast : path.toList.getLast? = some '/'
  · obtain ⟨u, hu⟩ := List.getLast?_eq_some_iff.mp hlast
    have hpath : path = String.ofList (u ++ ['/']) := by rw [← hu, String.ofList_toList]
    refine .inl ⟨u, hpath, ?_⟩
    rw [← String.toList_inj, String.toList_ofList]
    simp [join, hempty, hu]
  · refine .inr ?_
    rw [← String.toList_inj, String.toList_ofList]
    simp [join, hempty, hlast]

theorem parts_join (path : String) {names : List String} (h : ∀ name ∈ names, IsFileName name) :
    parts (join path names) = parts path ++ names := by
  by_cases hne : names = []
  · simp [join, hne]
  have hparts := parts_ofParts hne h
  rcases join_cases path hne with ⟨u, hpath, hjoin⟩ | hjoin
  · have hempty : parts (String.ofList []) = [] := rfl
    rw [hjoin, hpath, parts_slash, parts_slash, String.ofList_toList, hparts, hempty,
      List.append_nil]
  · rw [hjoin, parts_slash, String.ofList_toList, String.ofList_toList, hparts]

theorem head?_join {path : String} (hpath : path ≠ "") (names : List String) :
    (join path names).toList.head? = path.toList.head? := by
  by_cases hne : names = []
  · simp [join, hne]
  · have hlist : path.toList ≠ [] := fun h => hpath (String.toList_eq_nil_iff.mp h)
    obtain ⟨c, s, hs⟩ := List.exists_cons_of_ne_nil hlist
    rcases join_cases path hne with ⟨u, heq, hjoin⟩ | hjoin
    · rw [hjoin, heq, String.toList_ofList, String.toList_ofList]
      cases u with
      | nil => rfl
      | cons d u => rfl
    · rw [hjoin, String.toList_ofList, hs]
      rfl

theorem getLast?_ofParts (names : List String) {name : String} (hname : name ≠ "") :
    (ofParts (names ++ [name])).toList.getLast? = name.toList.getLast? := by
  have hlist : name.toList ≠ [] := fun h => hname (String.toList_eq_nil_iff.mp h)
  induction names with
  | nil => simp [ofParts]
  | cons first names ih =>
    obtain ⟨next, rest, h⟩ := List.exists_cons_of_ne_nil
      (List.append_ne_nil_of_right_ne_nil names (List.cons_ne_nil name []))
    rw [h] at ih
    rw [List.cons_append, h, ofParts, String.intercalate_cons_cons, String.toList_append,
      List.getLast?_append, ← ofParts, ih, List.getLast?_eq_some_getLast hlist, Option.some_or]

/-- A path that ends in the name of a file asks for no directory. -/
theorem asksDirectory_join (path : String) (names : List String) {name : String} {c : Char}
    (hlast : name.toList.getLast? = some c) (hslash : c ≠ '/') (hpoint : c ≠ '.') :
    Disk.asksDirectory (join path (names ++ [name])) = false := by
  have hname : name ≠ "" := by
    rintro rfl
    simp at hlast
  have hne : names ++ [name] ≠ [] := by simp
  have hend : (join path (names ++ [name])).toList.getLast? = some c := by
    have hofParts := getLast?_ofParts names hname
    rw [hlast] at hofParts
    rcases join_cases path hne with ⟨u, -, hjoin⟩ | hjoin
    · rw [hjoin, String.toList_ofList, List.getLast?_append, List.getLast?_cons, hofParts]
      rfl
    · rw [hjoin, String.toList_ofList, List.getLast?_append, List.getLast?_cons, hofParts]
      rfl
  obtain ⟨s, hs⟩ := List.getLast?_eq_some_iff.mp hend
  rw [Disk.asksDirectory, hs, List.reverse_append, List.reverse_singleton, List.singleton_append]
  split
  · simp_all
  · simp_all
  · simp_all
  · simp_all
  · rfl

/-! ### Names of messages -/

theorem stem_subset (name : String) : (stem name).toList ⊆ name.toList := by
  simp only [stem, String.toList_ofList, splitName]
  split
  · exact List.Subset.refl _
  · exact List.Subset.refl _
  · next hd =>
    intro c hc
    have hmem : c ∈ name.toList.reverse.dropWhile (· != '.') := by
      rw [hd]
      exact List.mem_cons_of_mem _ (List.mem_reverse.mp hc)
    exact List.mem_reverse.mp ((List.dropWhile_sublist _).subset hmem)

/-- The last character of the name of a message is an l or an m. -/
theorem getLast?_of_isMessageName {name : String} (h : isMessageName name = true) :
    ∃ c, name.toList.getLast? = some c ∧ (asciiLower c = 'l' ∨ asciiLower c = 'm') := by
  have hname := List.takeWhile_append_dropWhile (p := (· != '.')) (l := name.toList.reverse)
  simp only [isMessageName, splitName] at h
  split at h
  · simp at h
  · simp at h
  · simp only [Option.any_some, Bool.or_eq_true, eqIgnoreAsciiCase, beq_iff_eq,
      List.map_reverse, List.reverse_eq_iff] at h
    cases hw : name.toList.reverse.takeWhile (· != '.') with
    | nil => simp [hw] at h
    | cons c w =>
      rw [hw] at h hname
      refine ⟨c, ?_, h.imp (fun h => ?_) fun h => ?_⟩
      · rw [← List.head?_reverse, ← hname]
        rfl
      · exact (List.cons.inj h).1
      · exact (List.cons.inj h).1

end EmailTemplate.Files
