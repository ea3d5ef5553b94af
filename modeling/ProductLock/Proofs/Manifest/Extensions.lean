import Mathlib.Data.String.Basic
import ProductLock.Proofs.Manifest
import ProductLock.Proofs.Report

namespace ProductLock.Manifest

variable {product : ProductId} {type version key : String} {r : Report}
  {extensions extensions' extra extra' : List (String × Value)}

/-- The first of the reserved keys that occurs among the extensions, with whatever value. -/
def FirstReserved (extensions : List (String × Value)) (key : String) : Prop :=
  ∃ before after, reservedKeys = before ++ key :: after ∧ (∃ v, (key, v) ∈ extensions) ∧
    ∀ k ∈ before, ∀ v, (k, v) ∉ extensions

/-- What extensions add to a manifest: those that have a value, strictly in the order of their keys. -/
structure Adds (extensions extra : List (String × Value)) : Prop where
  ascending : (extra.map Prod.fst).Pairwise (· < ·)
  mem_iff : ∀ key v, (key, v) ∈ extra ↔ (key, v) ∈ extensions ∧ v ≠ .null

theorem Adds.perm (h : Adds extensions extra) (hperm : extensions.Perm extensions') :
    Adds extensions' extra where
  ascending := h.ascending
  mem_iff key v := by rw [h.mem_iff, hperm.mem_iff]

theorem Adds.unique (h : Adds extensions extra) (h' : Adds extensions extra') : extra = extra' := by
  have hnodup {es : List (String × Value)} (hes : (es.map Prod.fst).Pairwise (· < ·)) : es.Nodup :=
    .of_map Prod.fst (hes.imp ne_of_lt)
  have hperm : extra.Perm extra' := by
    refine (List.perm_ext_iff_of_nodup (hnodup h.ascending) (hnodup h'.ascending)).mpr ?_
    rintro ⟨key, v⟩
    rw [h.mem_iff, h'.mem_iff]
  apply hperm.eq_of_pairwise _ (List.pairwise_map.mp h.ascending) (List.pairwise_map.mp h'.ascending)
  intro a b _ _ hab hba
  exact absurd (hab.trans hba) (lt_irrefl a.1)

theorem keyLe_iff {a b : String × Value} : keyLe a b = true ↔ a.1 ≤ b.1 := by
  rw [keyLe, bne_iff_ne, ne_eq, compare_gt_iff_gt, not_lt]

theorem isNull_iff {v : Value} : isNull v = true ↔ v = .null := by
  cases v <;> simp [isNull]

theorem adds_extras (hkeys : (extensions.map Prod.fst).Nodup) :
    Adds extensions (extras extensions) := by
  have hperm := Sorting.sort_perm keyLe extensions
  have hle : (Sorting.sort keyLe extensions).Pairwise fun a b => keyLe a b = true := by
    apply Sorting.sort_pairwise
    · intro a b c hab hbc
      rw [keyLe_iff] at hab hbc ⊢
      exact hab.trans hbc
    · intro a b
      rw [Bool.or_eq_true, keyLe_iff, keyLe_iff]
      exact le_total a.1 b.1
  constructor
  · have hdistinct : (Sorting.sort keyLe extensions).Pairwise fun a b => a.1 ≠ b.1 :=
      List.pairwise_map.mp ((hperm.map Prod.fst).nodup_iff.mpr hkeys)
    have hlt : (Sorting.sort keyLe extensions).Pairwise fun a b => a.1 < b.1 :=
      hle.imp₂ (fun a b hab hne => lt_of_le_of_ne (keyLe_iff.mp hab) hne) hdistinct
    exact List.pairwise_map.mpr (hlt.sublist List.filter_sublist)
  · intro key v
    rw [extras, List.mem_filter, hperm.mem_iff, Bool.not_eq_true', Bool.eq_false_iff, ne_eq,
      isNull_iff]

theorem extras_perm (hkeys : (extensions.map Prod.fst).Nodup) (h : extensions.Perm extensions') :
    extras extensions = extras extensions' :=
  ((adds_extras hkeys).perm h).unique (adds_extras ((h.map Prod.fst).nodup_iff.mp hkeys))

theorem any_key_iff : (extensions.any fun e => e.1 == key) = true ↔ ∃ v, (key, v) ∈ extensions := by
  rw [List.any_eq_true]
  constructor
  · rintro ⟨⟨_, v⟩, he, hkey⟩
    obtain rfl := beq_iff_eq.mp hkey
    exact ⟨v, he⟩
  · rintro ⟨v, he⟩
    exact ⟨(key, v), he, beq_self_eq_true key⟩

theorem firstReserved_iff : FirstReserved extensions key ↔
    (reservedKeys.find? fun key => extensions.any fun e => e.1 == key) = some key := by
  simp only [List.find?_eq_some_iff_append, any_key_iff, FirstReserved, Bool.not_eq_true',
    Bool.eq_false_iff, ne_eq, not_exists]
  constructor
  · rintro ⟨before, after, hsplit, hmem, hnone⟩
    exact ⟨hmem, before, after, hsplit, hnone⟩
  · rintro ⟨hmem, before, after, hsplit, hnone⟩
    exact ⟨before, after, hsplit, hmem, hnone⟩

/-- Extensions that leave the keys of a manifest to it. -/
def Free (extensions : List (String × Value)) : Prop :=
  ∀ e ∈ extensions, e.1 ∉ reservedKeys

theorem free_iff : Free extensions ↔
    (reservedKeys.find? fun key => extensions.any fun e => e.1 == key) = none := by
  simp only [List.find?_eq_none, any_key_iff, Free]
  constructor
  · rintro h key hkey ⟨v, he⟩
    exact h _ he hkey
  · intro h e he hkey
    exact h e.1 hkey ⟨e.2, he⟩

theorem free_nil : Free [] :=
  nofun

theorem extras_nil : extras [] = [] :=
  rfl

theorem free_or_firstReserved (extensions : List (String × Value)) :
    Free extensions ∨ ∃ key, FirstReserved extensions key := by
  simp only [free_iff, firstReserved_iff]
  cases reservedKeys.find? fun key => extensions.any fun e => e.1 == key with
  | none => exact .inl rfl
  | some key => exact .inr ⟨key, rfl⟩

theorem build_of_firstReserved (h : FirstReserved extensions key) :
    build product type version r extensions = Plan.fail (.reservedExtension key) := by
  rw [build, firstReserved_iff.mp h]

/-- Without a reserved key, extensions do nothing but come after what is built without them. -/
theorem build_of_free (h : Free extensions) : build product type version r extensions =
    (build product type version r [] >>= fun own => pure (own ++ extras extensions)) := by
  simp only [build, free_iff.mp h, free_iff.mp free_nil, extras_nil, List.append_nil]
  split
  · rfl
  · split
    · simp
    · simp

theorem ofName_name (type : ProductType) : ProductType.ofName type.name = .ok type := by
  cases type <;> rfl

/-- With a valid version the own part of a manifest is built. -/
theorem build_own (product : ProductId) (type : ProductType) (r : Report)
    (hversion : Version.isValid version = true) :
    (build product type.name version r []).result = .ok (header product type version r) := by
  simp only [build, free_iff.mp free_nil, hversion, extras_nil, List.append_nil, ofName_name,
    not_true_eq_false, if_false]
  split <;> rfl

theorem keys_of_build {own : List (String × Value)}
    (h : (build product type version r []).result = .ok own) : own.map Prod.fst = reservedKeys := by
  obtain ⟨type, rfl, -⟩ := build_ok h
  rfl

/-- Only a reserved key is refused as one. -/
theorem build_ne_reserved :
    (build product type version r []).result ≠ .error (.reservedExtension key) := by
  have htype : (ProductType.ofName type) ≠ .error (.reservedExtension key) := by
    unfold ProductType.ofName
    split <;> simp
  intro h
  simp only [build, free_iff.mp free_nil] at h
  split at h
  · simp [Plan.fail] at h
  · split at h <;>
      simp [Plan.result_bind_error, Plan.ofResult, Plan.note, Plan.act, htype, pure] at h

theorem build_ok_iff {document : List (String × Value)} :
    (build product type version r extensions).result = .ok document ↔ Free extensions ∧
      ∃ own, (build product type version r []).result = .ok own ∧
        document = own ++ extras extensions := by
  rcases free_or_firstReserved extensions with hfree | ⟨key, hkey⟩
  · rw [build_of_free hfree, Plan.result_bind]
    simp [hfree, pure, eq_comm]
  · have hnot : ¬ Free extensions := by
      intro hfree
      rw [free_iff, firstReserved_iff.mp hkey] at hfree
      contradiction
    simp [build_of_firstReserved hkey, Plan.fail, hnot]

theorem build_reserved_iff :
    (build product type version r extensions).result = .error (.reservedExtension key) ↔
      FirstReserved extensions key := by
  constructor
  · intro h
    rcases free_or_firstReserved extensions with hfree | ⟨key', hkey'⟩
    · rw [build_of_free hfree, Plan.result_bind_error] at h
      rcases h with h | ⟨_, _, h⟩
      · exact absurd h build_ne_reserved
      · contradiction
    · rw [build_of_firstReserved hkey'] at h
      cases h
      exact hkey'
  · intro h
    rw [build_of_firstReserved h]
    rfl

theorem exists_firstReserved_iff :
    (∃ key, FirstReserved extensions key) ↔ ∃ e ∈ extensions, e.1 ∈ reservedKeys := by
  constructor
  · rintro ⟨key, before, after, hsplit, ⟨v, he⟩, -⟩
    exact ⟨(key, v), he, by simp [hsplit]⟩
  · rintro ⟨e, he, hkey⟩
    exact (free_or_firstReserved extensions).resolve_left fun hfree => hfree e he hkey

/-- A reserved key among the extensions is refused, the first of them by name, before all else. The
others come after the keys of the manifest, which are as without them, and in an order that does not
depend on how they are given. -/
theorem build_extensions (product : ProductId) (type version : String) (r : Report)
    (hkeys : (extensions.map Prod.fst).Nodup) :
    ((∃ key, (build product type version r extensions).result = .error (.reservedExtension key)) ↔
      ∃ e ∈ extensions, e.1 ∈ reservedKeys) ∧
    (∀ key, (build product type version r extensions).result = .error (.reservedExtension key) ↔
      FirstReserved extensions key) ∧
    (∀ document, (build product type version r extensions).result = .ok document ↔
      (∀ e ∈ extensions, e.1 ∉ reservedKeys) ∧
      ∃ own extra, document = own ++ extra ∧ own.map Prod.fst = reservedKeys ∧
        (build product type version r []).result = .ok own ∧ Adds extensions extra) ∧
    ∀ extensions', extensions.Perm extensions' →
      build product type version r extensions' = build product type version r extensions := by
  refine ⟨?_, fun key => build_reserved_iff, ?_, ?_⟩
  · simp only [build_reserved_iff]
    exact exists_firstReserved_iff
  · intro document
    rw [build_ok_iff]
    constructor
    · rintro ⟨hfree, own, hown, rfl⟩
      exact ⟨hfree, own, _, rfl, keys_of_build hown, hown, adds_extras hkeys⟩
    · rintro ⟨hfree, own, extra, rfl, -, hown, hadds⟩
      exact ⟨hfree, own, hown, by rw [hadds.unique (adds_extras hkeys)]⟩
  · intro extensions' hperm
    have hany (key : String) :
        (extensions'.any fun e => e.1 == key) = extensions.any fun e => e.1 == key :=
      hperm.symm.any_eq
    simp only [build, hany, extras_perm hkeys hperm]

/-- Extensions out of order, one of them without a value. -/
def unordered : List (String × Value) :=
  [("zone", .text "eu"), ("team", .null), ("area", .list [.int 1])]

def orders : ProductId :=
  ⟨"shop.backend", "orders", by decide, by decide⟩

theorem build_extensions_unordered :
    (unordered.map Prod.fst).Nodup ∧ ∃ document,
      (build orders "service.v1" "1.0.0" (Report.of []) unordered).result = .ok document ∧
      document.map Prod.fst = reservedKeys ++ ["area", "zone"] ∧
      (build orders "service.v1" "1.0.0" (Report.of []) unordered.reverse).result = .ok document := by
  have hkeys : (unordered.map Prod.fst).Nodup := by decide
  obtain ⟨-, -, hok, hperm⟩ := build_extensions orders "service.v1" "1.0.0" (Report.of []) hkeys
  have hversion : Version.isValid "1.0.0" = true := by decide +kernel
  have hown := build_own orders .service (Report.of []) hversion
  have hdocument := (hok _).mpr ⟨by decide, _, _, rfl, rfl, hown, adds_extras hkeys⟩
  refine ⟨hkeys, _, hdocument, rfl, ?_⟩
  rw [hperm _ (List.reverse_perm unordered).symm]
  exact hdocument

/-- Of two reserved keys the one that a manifest has first is named, though it has no value, the
version is none and the type is unknown. -/
example : (build orders "library.v1" "latest" (Report.of [])
    [("zone", .text "eu"), ("product-group", .text "b"), ("product-type", .null)]).result =
      .error (.reservedExtension "product-type") :=
  rfl

end ProductLock.Manifest
