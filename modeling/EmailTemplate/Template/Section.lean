import EmailTemplate.Json.Value
import EmailTemplate.Template.Token
import EmailTemplate.Text.Word

/-! Block sections: a part of a template that is kept only if the data says so. -/

namespace EmailTemplate.Template

open Text

/-- Names of sections and loops: word characters, points and dashes. -/
def isNameChar (c : Char) : Bool := isWord c || c == '.' || c == '-'

def sectionMark : List Char := openBraces ++ ['#', 'b', 'l', 'o', 'c', 'k', ':']

def sectionEndMark : List Char := openBraces ++ ['/', 'b', 'l', 'o', 'c', 'k', ':']

def sectionOpener (name : List Char) : List Char := sectionMark ++ name ++ closeBraces

def sectionCloser (name : List Char) : List Char := sectionEndMark ++ name ++ closeBraces

/-- The name in the opener at the head of the text, and what follows the opener. -/
def sectionAt? (s : List Char) : Option (List Char × List Char) :=
  (after? sectionMark s).bind fun t =>
    let name := t.takeWhile isNameChar
    if name.isEmpty then none
    else (after? closeBraces (t.dropWhile isNameChar)).map fun rest => (name, rest)

theorem sectionAt?_length {s name rest : List Char} (h : sectionAt? s = some (name, rest)) :
    s.length = (sectionOpener name).length + rest.length := by
  simp only [sectionAt?, Option.bind_eq_some_iff] at h
  obtain ⟨t, ht, h⟩ := h
  split at h
  · simp at h
  · simp only [Option.map_eq_some_iff, Prod.mk.injEq] at h
    obtain ⟨u, hu, rfl, rfl⟩ := h
    have h1 := after?_length ht
    have h2 := after?_length hu
    have h3 : t.length = (t.takeWhile isNameChar).length + (t.dropWhile isNameChar).length := by
      rw [← List.length_append, List.takeWhile_append_dropWhile]
    simp only [sectionOpener, List.length_append]
    omega

/-- Whether the data shows a block: only the value true does. -/
def isVisible (data : Json.Value) (name : List Char) : Bool :=
  ((data.get? "blocks").bind (·.get? (String.ofList name))).bind (·.asBool?) == some true

/-- Replaces each section by its body or by nothing. A section ends at the nearest closer of its
name, and its body is looked at again together with what follows. An opener without closer
stays. -/
def resolveSections (visible : List Char → Bool) : List Char → List Char
  | [] => []
  | c :: s =>
    match _h : sectionAt? (c :: s) with
    | none => c :: resolveSections visible s
    | some (name, rest) =>
      match _h' : splitFirst? (sectionCloser name) rest with
      | none => sectionOpener name ++ resolveSections visible rest
      | some (body, tail) =>
        resolveSections visible ((if visible name then body else []) ++ tail)
termination_by s => s.length
decreasing_by
  · simp
  · have := sectionAt?_length _h
    simp only [sectionOpener, sectionMark, openBraces, List.length_append, List.length_cons] at this
    simp only [List.length_cons]
    omega
  · have h1 := sectionAt?_length _h
    have h2 := splitFirst?_length _h'
    simp only [sectionOpener, sectionMark, openBraces, List.length_append, List.length_cons] at h1
    simp only [List.length_append, List.length_cons]
    split <;> simp_all <;> omega

def resolveBlocks (template : List Char) (data : Json.Value) : List Char :=
  resolveSections (isVisible data) template

end EmailTemplate.Template
