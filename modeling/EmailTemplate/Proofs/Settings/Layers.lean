import EmailTemplate.Proofs.Json.Record
import EmailTemplate.Proofs.Toml.Reading
import EmailTemplate.Settings.Layers

/-! A settings file laid over the standard settings. It is read as if it stood alone, but for a
second spelling of an option: the first spelling comes from below, and the two are one too many. -/

namespace EmailTemplate

open Json

/-! ### Records over records -/

namespace Json.Record.Fields

variable {ρ α ι : Type} {r : Record ρ α} (F : r.Fields ι)

open Toml.Value (joined overlayMembers_perm)

def ofMember (m : String × Toml.Value) : Option String × Draft := (some m.1, m.2.draft)

theorem draft_table (members : List (String × Toml.Value)) :
    (Toml.Value.table members).draft = .object (members.map ofMember) none := by
  rw [Toml.Value.draft]
  congr 1
  induction members with
  | nil => rfl
  | cons m rest ih =>
    obtain ⟨key, v⟩ := m
    rw [Toml.Value.memberDrafts, ih]
    rfl

/-- What lies below is not seen where it is idle and no member above is for its field under another
key. -/
theorem toOption_decode_overlay (origin : Origin) {base layer : List (String × Toml.Value)}
    (hbase : RisingKeys base) (hlayer : RisingKeys layer)
    (hidle : ∀ b ∈ base, F.Idle (ofMember b))
    (hdistinct : (base.map fun b => F.field? b.1).Nodup)
    (hspelling : ∀ m ∈ layer, ∀ b ∈ base, F.field? m.1 = F.field? b.1 → m.1 = b.1) :
    (r.decode origin (Toml.Value.overlay (.table base) (.table layer)).draft).toOption =
      (r.decode origin
        (Toml.Value.table (layer.map fun m => (m.1, joined base m.1 m.2))).draft).toOption := by
  have hperm := (overlayMembers_perm hbase hlayer.nodup).trans List.perm_append_comm
  rw [Toml.Value.overlay, draft_table, draft_table,
    F.toOption_decode_perm origin (hperm.map ofMember), List.map_append]
  refine F.toOption_decode_append_idle origin ?_ ?_ ?_
  · intro m hm
    obtain ⟨b, hb, rfl⟩ := List.mem_map.mp hm
    exact hidle b (List.mem_of_mem_filter hb)
  · rw [List.map_map]
    exact hdistinct.sublist (List.filter_sublist.map _)
  · intro m hm n hn he
    obtain ⟨b, hb, rfl⟩ := List.mem_map.mp hm
    rw [List.map_map] at hn
    obtain ⟨u, hu, rfl⟩ := List.mem_map.mp hn
    have hkey := hspelling u hu b (List.mem_of_mem_filter hb) he
    have hfree : b.1 ∉ layer.map Prod.fst := by simpa using List.of_mem_filter hb
    exact hfree (hkey ▸ List.mem_map_of_mem hu)

/-- What lies below may be forgotten if it holds no tables either. -/
theorem toOption_decode_overlay_flat (origin : Origin) {base layer : List (String × Toml.Value)}
    (hbase : RisingKeys base) (hlayer : RisingKeys layer)
    (hidle : ∀ b ∈ base, F.Idle (ofMember b))
    (hdistinct : (base.map fun b => F.field? b.1).Nodup)
    (hspelling : ∀ m ∈ layer, ∀ b ∈ base, F.field? m.1 = F.field? b.1 → m.1 = b.1)
    (hflat : ∀ b ∈ base, ∀ members, b.2 ≠ .table members) :
    (r.decode origin (Toml.Value.overlay (.table base) (.table layer)).draft).toOption =
      (r.decode origin (Toml.Value.table layer).draft).toOption := by
  have hjoined : layer.map (fun m => (m.1, joined base m.1 m.2)) = layer := by
    simp [Toml.Value.joined_of_not_table hflat]
  rw [F.toOption_decode_overlay origin hbase hlayer hidle hdistinct hspelling, hjoined]

/-- Two keys for one field, one above and one below, are one too many. -/
theorem toOption_decode_overlay_twice (origin : Origin) {base layer : List (String × Toml.Value)}
    (hbase : RisingKeys base) (hlayer : RisingKeys layer) {m b : String × Toml.Value} {i : ι}
    (hm : m ∈ layer) (hb : b ∈ base) (hne : m.1 ≠ b.1) (hi : F.field? m.1 = some i)
    (hj : F.field? b.1 = some i) :
    (r.decode origin (Toml.Value.overlay (.table base) (.table layer)).draft).toOption = none := by
  have hperm := overlayMembers_perm hbase hlayer.nodup
  have habove : ∀ u ∈ layer, (u.1, joined base u.1 u.2) ∈ Toml.Value.overlayMembers base layer :=
    fun u hu => hperm.symm.subset
      (List.mem_append_left _ (List.mem_map_of_mem (f := fun m => (m.1, joined base m.1 m.2)) hu))
  have hbelow : ∃ w, (b.1, w) ∈ Toml.Value.overlayMembers base layer := by
    by_cases hkey : b.1 ∈ layer.map Prod.fst
    · obtain ⟨u, hu, he⟩ := List.mem_map.mp hkey
      exact ⟨_, he ▸ habove u hu⟩
    · refine ⟨b.2, hperm.symm.subset (List.mem_append_right _ ?_)⟩
      exact List.mem_filter.mpr ⟨hb, by simpa using hkey⟩
  obtain ⟨w, hw⟩ := hbelow
  rw [Toml.Value.overlay, draft_table]
  refine F.toOption_decode_twice origin (List.mem_map_of_mem (habove m hm))
    (List.mem_map_of_mem hw) (fun he => hne ?_) hi hj
  exact Option.some.inj (congrArg Prod.fst he)

end Json.Record.Fields

/-! ### Fields -/

namespace AdaptOptions

inductive Field
  | detectBlocks
  | ctaStrategy
  | preheaderFallback
  | preserveComments
  deriving DecidableEq

namespace Field

def named? (key : String) : Option Field :=
  if key = "detect_blocks" ∨ key = "detectBlocks" then some detectBlocks
  else if key = "cta_strategy" ∨ key = "ctaStrategy" then some ctaStrategy
  else if key = "preheader_fallback" ∨ key = "preheaderFallback" then some preheaderFallback
  else if key = "preserve_comments" ∨ key = "preserveComments" then some preserveComments
  else none

def Content : Field → Type
  | detectBlocks => List String
  | ctaStrategy => CtaStrategy
  | preheaderFallback | preserveComments => Bool

def slot : (i : Field) → Draft → Option i.Content
  | detectBlocks, o => o.detectBlocks
  | ctaStrategy, o => o.ctaStrategy
  | preheaderFallback, o => o.preheaderFallback
  | preserveComments, o => o.preserveComments

def read (origin : Origin) : (i : Field) → Json.Draft → Decoded i.Content
  | detectBlocks, d => d.toList? Json.Draft.toString?
  | ctaStrategy, d => d.toName? origin CtaStrategy.named?
  | preheaderFallback, d => d.toBool?
  | preserveComments, d => d.toBool?

def put : (i : Field) → i.Content → Draft → Draft
  | detectBlocks, v, o => { o with detectBlocks := some v }
  | ctaStrategy, v, o => { o with ctaStrategy := some v }
  | preheaderFallback, v, o => { o with preheaderFallback := some v }
  | preserveComments, v, o => { o with preserveComments := some v }

def name : Field → String
  | detectBlocks => "detect_blocks"
  | ctaStrategy => "cta_strategy"
  | preheaderFallback => "preheader_fallback"
  | preserveComments => "preserve_comments"

def secondName : Field → String
  | detectBlocks => "detectBlocks"
  | ctaStrategy => "ctaStrategy"
  | preheaderFallback => "preheaderFallback"
  | preserveComments => "preserveComments"

theorem eq_name_or {key : String} {i : Field} (h : named? key = some i) :
    key = i.name ∨ key = i.secondName := by
  unfold named? at h
  split_ifs at h <;> (obtain rfl := Option.some.inj h; assumption)

end Field

def fields (origin : Origin) : (record origin).Fields Field where
  field? := Field.named?
  Content := Field.Content
  slot := Field.slot
  read := Field.read origin
  put := Field.put
  toOption_member o key d := by
    simp only [record, Field.named?]
    split_ifs
    · exact toOption_map_once (fun v => { o with detectBlocks := v }) _ _
    · exact toOption_map_once (fun v => { o with ctaStrategy := v }) _ _
    · exact toOption_map_once (fun v => { o with preheaderFallback := v }) _ _
    · exact toOption_map_once (fun v => { o with preserveComments := v }) _ _
    · rfl
  slot_start i := by cases i <;> rfl
  slot_put i v o := by cases i <;> rfl
  slot_put_of_ne i j v o h := by cases i <;> cases j <;> first | rfl | exact absurd rfl h
  put_comm i j v w o h := by cases i <;> cases j <;> first | rfl | exact absurd rfl h

end AdaptOptions

def Limits.fields : Limits.record.Fields Unit :=
  .ofOne "max_input_bytes" Draft.toNat? rfl fun _ _ _ => rfl

def Processing.fields : Processing.record.Fields Unit :=
  .ofOne "max_processes" (Draft.toOption? Draft.toNat?) rfl fun _ _ _ => rfl

namespace Config

inductive Field
  | adapt
  | limits
  | processing
  deriving DecidableEq

namespace Field

def named? (key : String) : Option Field :=
  if key = "adapt" then some adapt
  else if key = "limits" then some limits
  else if key = "processing" then some processing
  else none

def Content : Field → Type
  | adapt => AdaptOptions
  | limits => Limits
  | processing => Processing

def slot : (i : Field) → Draft → Option i.Content
  | adapt, c => c.adapt
  | limits, c => c.limits
  | processing, c => c.processing

def read (origin : Origin) : (i : Field) → Json.Draft → Decoded i.Content
  | adapt, d => AdaptOptions.decode origin d
  | limits, d => Limits.decode origin d
  | processing, d => Processing.decode origin d

def put : (i : Field) → i.Content → Draft → Draft
  | adapt, v, c => { c with adapt := some v }
  | limits, v, c => { c with limits := some v }
  | processing, v, c => { c with processing := some v }

def name : Field → String
  | adapt => "adapt"
  | limits => "limits"
  | processing => "processing"

theorem eq_name {key : String} {i : Field} (h : named? key = some i) : key = i.name := by
  unfold named? at h
  split_ifs at h <;> (obtain rfl := Option.some.inj h; assumption)

end Field

def fields (origin : Origin) : (record origin).Fields Field where
  field? := Field.named?
  Content := Field.Content
  slot := Field.slot
  read := Field.read origin
  put := Field.put
  toOption_member c key d := by
    simp only [record, Field.named?]
    split_ifs
    · exact toOption_map_once (fun v => { c with adapt := v }) _ _
    · exact toOption_map_once (fun v => { c with limits := v }) _ _
    · exact toOption_map_once (fun v => { c with processing := v }) _ _
    · rfl
  slot_start i := by cases i <;> rfl
  slot_put i v c := by cases i <;> rfl
  slot_put_of_ne i j v c h := by cases i <;> cases j <;> first | rfl | exact absurd rfl h
  put_comm i j v w c h := by cases i <;> cases j <;> first | rfl | exact absurd rfl h

end Config

/-! ### Sections -/

namespace AdaptOptions

/-- The second spellings of the options. -/
def secondSpellings : List String :=
  ["detectBlocks", "ctaStrategy", "preheaderFallback", "preserveComments"]

theorem Field.secondName_mem (i : Field) : i.secondName ∈ secondSpellings := by
  cases i <;> decide

/-- Whether a table of options has one in its second spelling. -/
def respelled : Toml.Value → Bool
  | .table members => members.any fun m => m.1 ∈ secondSpellings
  | _ => false

def standardMembers : List (String × Toml.Value) :=
  [("cta_strategy", .string standard.ctaStrategy.name),
    ("detect_blocks", .array (standard.detectBlocks.map .string)),
    ("preheader_fallback", .boolean standard.preheaderFallback),
    ("preserve_comments", .boolean standard.preserveComments)]

theorem standardMembers_idle :
    ∀ b ∈ standardMembers, (fields .settings).Idle (Record.Fields.ofMember b) := by
  simp only [standardMembers, List.forall_mem_cons, List.not_mem_nil, false_imp_iff, implies_true,
    and_true]
  refine ⟨⟨.ctaStrategy, .auto, by decide, rfl, ?_⟩,
    ⟨.detectBlocks, standard.detectBlocks, by decide, rfl, ?_⟩,
    ⟨.preheaderFallback, true, by decide, rfl, ?_⟩,
    ⟨.preserveComments, false, by decide, rfl, ?_⟩⟩
  all_goals
    rintro ⟨blocks, strategy, fallback, comments⟩ h
    obtain rfl := h
    rfl

theorem exists_field_of_second {key : String} (h : key ∈ secondSpellings) :
    ∃ b ∈ standardMembers, key ≠ b.1 ∧
      ∃ i, Field.named? key = some i ∧ Field.named? b.1 = some i := by
  simp only [secondSpellings, List.mem_cons, List.not_mem_nil, or_false] at h
  rcases h with rfl | rfl | rfl | rfl
  · exact ⟨_, .tail _ (.head _), by decide, .detectBlocks, by decide, by decide⟩
  · exact ⟨_, .head _, by decide, .ctaStrategy, by decide, by decide⟩
  · exact ⟨_, .tail _ (.tail _ (.head _)), by decide, .preheaderFallback, by decide, by decide⟩
  · exact ⟨_, .tail _ (.tail _ (.tail _ (.head _))), by decide, .preserveComments, by decide,
      by decide⟩

theorem eq_key_of_field {key : String} (h : key ∉ secondSpellings) {b : String × Toml.Value}
    (hb : b ∈ standardMembers) (hfield : Field.named? key = Field.named? b.1) : key = b.1 := by
  have hname : ∀ b ∈ standardMembers, ∃ i, Field.named? b.1 = some i ∧ b.1 = i.name := by decide
  obtain ⟨i, hi, hb⟩ := hname b hb
  rcases Field.eq_name_or (hfield.trans hi) with hkey | hkey
  · exact hkey.trans hb.symm
  · exact absurd (hkey ▸ Field.secondName_mem i) h

theorem toOption_decode_overlay {v : Toml.Value} (hv : v.Rising) :
    (decode .settings (Toml.Value.overlay (.table standardMembers) v).draft).toOption =
      if respelled v then none else (decode .settings v.draft).toOption := by
  cases v with
  | table layer =>
    have hbase : RisingKeys standardMembers := by decide
    have hlayer : RisingKeys layer := hv.1
    by_cases hsecond : respelled (.table layer)
    · rw [if_pos hsecond]
      obtain ⟨m, hm, hkey⟩ := List.any_eq_true.mp hsecond
      obtain ⟨b, hb, hne, i, hi, hj⟩ := exists_field_of_second (of_decide_eq_true hkey)
      exact (fields .settings).toOption_decode_overlay_twice .settings hbase hlayer hm hb hne hi hj
    · rw [if_neg hsecond]
      have hspelling : ∀ m ∈ layer, ∀ b ∈ standardMembers,
          Field.named? m.1 = Field.named? b.1 → m.1 = b.1 := by
        intro m hm b hb hfield
        refine eq_key_of_field (fun hkey => hsecond ?_) hb hfield
        exact List.any_eq_true.mpr ⟨m, hm, decide_eq_true hkey⟩
      exact (fields .settings).toOption_decode_overlay_flat .settings hbase hlayer
        standardMembers_idle (by decide) hspelling (by simp [standardMembers])
  | _ => rfl

end AdaptOptions

namespace Limits

def standardMembers : List (String × Toml.Value) :=
  [("max_input_bytes", .integer standard.maxInputBytes)]

theorem toOption_decode_overlay {v : Toml.Value} (hv : v.Rising) :
    (decode .settings (Toml.Value.overlay (.table standardMembers) v).draft).toOption =
      (decode .settings v.draft).toOption := by
  cases v with
  | table layer =>
    have hidle : ∀ b ∈ standardMembers, fields.Idle (Record.Fields.ofMember b) := by
      simp only [standardMembers, List.forall_mem_singleton]
      refine ⟨(), standard.maxInputBytes, rfl, rfl, fun l hl => ?_⟩
      obtain rfl : l = none := hl
      rfl
    have hspelling : ∀ m ∈ layer, ∀ b ∈ standardMembers,
        fields.field? m.1 = fields.field? b.1 → m.1 = b.1 := by
      intro m _ b hb hfield
      obtain rfl := List.mem_singleton.mp hb
      by_contra hkey
      simp [fields, Record.Fields.ofOne, hkey] at hfield
    exact fields.toOption_decode_overlay_flat .settings (by decide) hv.1 hidle (by decide)
      hspelling (by simp [standardMembers])
  | _ => rfl

end Limits

theorem Processing.toOption_decode_overlay {v : Toml.Value} (hv : v.Rising) :
    (decode .settings (Toml.Value.overlay (.table []) v).draft).toOption =
      (decode .settings v.draft).toOption := by
  cases v with
  | table layer =>
    exact fields.toOption_decode_overlay_flat .settings (by decide) hv.1 (by simp) (by simp)
      (by simp) (by simp)
  | _ => rfl

namespace Config

/-- Whether a layer has an option in its second spelling. -/
def respelled : Toml.Value → Bool
  | .table members => (lookup? "adapt" members).any AdaptOptions.respelled
  | _ => false

def standardMembers : List (String × Toml.Value) :=
  [("adapt", .table AdaptOptions.standardMembers), ("limits", .table Limits.standardMembers),
    ("processing", .table [])]

theorem standardMembers_idle :
    ∀ b ∈ standardMembers, (fields .settings).Idle (Record.Fields.ofMember b) := by
  simp only [standardMembers, List.forall_mem_cons, List.not_mem_nil, false_imp_iff, implies_true,
    and_true]
  refine ⟨⟨.adapt, .standard, by decide, rfl, ?_⟩, ⟨.limits, .standard, by decide, rfl, ?_⟩,
    ⟨.processing, .standard, by decide, rfl, ?_⟩⟩
  all_goals
    rintro ⟨adapt, limits, processing⟩ h
    obtain rfl := h
    rfl

theorem eq_key_of_field {key : String} {b : String × Toml.Value} (hb : b ∈ standardMembers)
    (hfield : Field.named? key = Field.named? b.1) : key = b.1 := by
  have hname : ∀ b ∈ standardMembers, ∃ i, Field.named? b.1 = some i ∧ b.1 = i.name := by decide
  obtain ⟨i, hi, hb⟩ := hname b hb
  exact (Field.eq_name (hfield.trans hi)).trans hb.symm

/-- What each section of a layer is read to once it lies over the standard one. -/
theorem toOption_read_joined {key : String} {i : Field} (hi : Field.named? key = some i)
    {v : Toml.Value} (hv : v.Rising) :
    (Field.read .settings i (Toml.Value.joined standardMembers key v).draft).toOption =
      if i = .adapt ∧ AdaptOptions.respelled v then none
      else (Field.read .settings i v.draft).toOption := by
  obtain rfl := Field.eq_name hi
  cases i with
  | adapt =>
    simp only [true_and]
    exact AdaptOptions.toOption_decode_overlay hv
  | limits =>
    rw [if_neg (by simp)]
    exact Limits.toOption_decode_overlay hv
  | processing =>
    rw [if_neg (by simp)]
    exact Processing.toOption_decode_overlay hv

theorem exists_adapt_of_respelled {layer : List (String × Toml.Value)}
    (h : respelled (.table layer)) : ∃ v, ("adapt", v) ∈ layer ∧ AdaptOptions.respelled v := by
  cases hv : lookup? "adapt" layer with
  | none => simp [respelled, hv] at h
  | some v => exact ⟨v, mem_of_lookup? hv, by simpa [respelled, hv] using h⟩

theorem respelled_of_mem {layer : List (String × Toml.Value)} (hlayer : RisingKeys layer)
    {v : Toml.Value} (hv : ("adapt", v) ∈ layer) (h : AdaptOptions.respelled v) :
    respelled (.table layer) := by
  simp only [respelled, lookup?_of_mem hlayer.nodup hv]
  exact h

theorem toOption_decode_overlay {layer : List (String × Toml.Value)}
    (h : (Toml.Value.table layer).Rising) :
    (decode .settings (standardTable.overlay (.table layer)).draft).toOption =
      if respelled (.table layer) then none
      else (decode .settings (Toml.Value.table layer).draft).toOption := by
  have hmembers := Toml.Value.membersRising_iff.mp h.2
  have hbase : RisingKeys standardMembers := by decide
  have hoverlay := (fields .settings).toOption_decode_overlay .settings hbase h.1
    standardMembers_idle (by decide) fun m _ b hb => eq_key_of_field hb
  refine hoverlay.trans ?_
  rw [Record.Fields.draft_table, Record.Fields.draft_table]
  by_cases hsecond : respelled (.table layer)
  · obtain ⟨v, hv, hrespelled⟩ := exists_adapt_of_respelled hsecond
    rw [if_pos hsecond]
    refine (fields .settings).toOption_decode_unread .settings (i := .adapt)
      (List.mem_map_of_mem (List.mem_map_of_mem hv)) rfl ?_
    have hread := toOption_read_joined (by decide : Field.named? "adapt" = some .adapt)
      (hmembers _ hv)
    exact hread.trans (if_pos ⟨rfl, hrespelled⟩)
  · rw [if_neg hsecond, List.map_map]
    refine (fields .settings).toOption_decode_map .settings (fun _ _ => rfl) fun m hm i hi => ?_
    have hread := toOption_read_joined hi (hmembers m hm)
    refine hread.trans (if_neg ?_)
    rintro ⟨rfl, hrespelled⟩
    have hkey : m.1 = "adapt" := Field.eq_name hi
    exact hsecond (respelled_of_mem h.1 (hkey ▸ hm) hrespelled)

theorem ofTable_eq (v : Toml.Value) :
    ofTable v = (decode .settings v.draft).toOption.elim (.error .malformed) fun c =>
      c.fault?.elim (.ok c) fun fault => .error (.invalid fault) := by
  rw [ofTable]
  cases decode .settings v.draft with
  | error fault => rfl
  | ok c =>
    cases hfault : c.fault? with
    | none =>
      simp only [Except.mapError, bind, Except.bind, Except.toOption, Option.elim_some, hfault]
      rfl
    | some fault =>
      simp only [Except.mapError, bind, Except.bind, Except.toOption, Option.elim_some, hfault]
      rfl

theorem ofTable_eq_ok_iff {v : Toml.Value} {c : Config} :
    ofTable v = .ok c ↔ decode .settings v.draft = .ok c ∧ c.fault? = none := by
  rw [ofTable_eq]
  cases decode .settings v.draft with
  | error fault => simp [Except.toOption]
  | ok c' =>
    cases h : c'.fault? with
    | none =>
      simp only [Except.toOption, Option.elim_some, h, Option.elim_none, Except.ok.injEq]
      constructor
      · rintro rfl
        exact ⟨rfl, h⟩
      · exact fun hc => hc.1
    | some fault =>
      simp only [Except.toOption, Option.elim_some, h, reduceCtorEq, Except.ok.injEq, false_iff]
      rintro ⟨rfl, hnone⟩
      simp [h] at hnone

theorem resolve_of_rising {layer : List (String × Toml.Value)}
    (h : (Toml.Value.table layer).Rising) :
    resolve standardTable (some (.table layer)) =
      if respelled (.table layer) then .error .malformed else ofTable (.table layer) := by
  have hdecode := toOption_decode_overlay h
  show ofTable (standardTable.overlay (.table layer)) = _
  rw [ofTable_eq, hdecode]
  by_cases hsecond : respelled (.table layer)
  · rw [if_pos hsecond, if_pos hsecond]
    rfl
  · rw [if_neg hsecond, if_neg hsecond, ofTable_eq]

/-- A layer over the standard settings is read as if it stood alone, but refused if it has an option
in its second spelling. -/
theorem resolve_standardTable {layer : List (String × Toml.Value)}
    (h : (Toml.Value.table layer).Rising) :
    resolve standardTable (some (.table layer)) =
        (if respelled (.table layer) then .error .malformed else ofTable (.table layer)) ∧
      ∀ c, ofTable (.table layer) = .ok c ↔
        decode .settings (Toml.Value.table layer).draft = .ok c ∧ c.fault? = none :=
  ⟨resolve_of_rising h, fun _ => ofTable_eq_ok_iff⟩

theorem resolve_standardTable_partial :
    (Toml.Value.table [("adapt", .table [("cta_strategy", .string "all"),
        ("detect_blocks", .array [.string "hero"])]), ("limits", .table [])]).Rising ∧
      resolve standardTable (some (.table [("adapt", .table [("cta_strategy", .string "all"),
        ("detect_blocks", .array [.string "hero"])]), ("limits", .table [])])) =
          .ok ⟨⟨["hero"], .all, true, false⟩, .standard, .standard⟩ := by
  have hrising : (Toml.Value.table [("adapt", .table [("cta_strategy", .string "all"),
      ("detect_blocks", .array [.string "hero"])]), ("limits", .table [])]).Rising := by
    simp only [Toml.Value.Rising, Toml.Value.membersRising, Toml.Value.itemsRising]
    decide
  obtain ⟨hresolve, hok⟩ := resolve_standardTable hrising
  refine ⟨hrising, hresolve.trans ((if_neg (by decide)).trans ((hok _).mpr ⟨?_, ?_⟩))⟩
  · rfl
  · decide

/-- The second spelling is good on its own, but not over the standard settings. -/
theorem resolve_ne_ofTable_respelled :
    ofTable (.table [("adapt", .table [("detectBlocks", .array [.string "hero"])])]) =
        .ok ⟨⟨["hero"], .auto, true, false⟩, .standard, .standard⟩ ∧
      resolve standardTable
        (some (.table [("adapt", .table [("detectBlocks", .array [.string "hero"])])])) =
          .error .malformed := by
  constructor
  · rfl
  · rfl

/-- What a file says is read as if it stood alone: the keys of its tables rise. -/
theorem load_of_parse? {bytes : ByteArray} {text : String} {v : Toml.Value}
    (htext : String.fromUTF8? bytes = some text) (hv : Toml.parse? text = some v) :
    load (some bytes) = if respelled v then .error .malformed else ofTable v := by
  obtain ⟨layer, rfl⟩ := Toml.exists_table_of_parse? hv
  rw [← resolve_of_rising (Toml.rising_parse? hv)]
  simp only [load, htext, readTable, hv]
  rfl

end Config

end EmailTemplate
