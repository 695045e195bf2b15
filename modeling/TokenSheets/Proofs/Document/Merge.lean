/-
TokenSheets/Proofs/Document/Merge.lean

What a merged document holds at every path.

A path of keys is *joined* when none of its keys is replaced as a whole and both
documents hold an object all the way along it.  Above the joined paths the two
documents are woven together; at the first key where a path leaves them, one
side is taken as it is.  `LaidOver` says this for every path, without speaking
of how merging is done.

That merging is determined has two parts, an existence and a uniqueness: merging
gives a value of this description (`merge_laidOver`), and no other value has it
(`LaidOver.eq_merge`).  The proof of the first goes down a joined path one key
at a time, where merging commutes with look-up (`descend_merge_of_joined`); the
second descends into both documents at once.
-/
import TokenSheets.Proofs.Json.WellFormed
import TokenSheets.Document.Effective

namespace TokenSheets

open Json Effective

namespace Json.Value

/-! ### Paths -/

theorem descend_cons (v : Value) (k : String) (ks : List String) :
    descend v (k :: ks) = (v.member? k).bind fun w => descend w ks := rfl

theorem descend_cons_object (ms : Table Value) (k : String) (ks : List String) :
    descend (.object ms) (k :: ks) = (ms.get? k).bind fun w => descend w ks := rfl

theorem descend_object_singleton (ms : Table Value) (k : String) :
    descend (.object ms) [k] = ms.get? k := by
  rw [descend_cons_object]
  cases ms.get? k <;> rfl

theorem descend_append (v : Value) (p q : List String) :
    descend v (p ++ q) = (descend v p).bind fun w => descend w q := by
  induction p generalizing v with
  | nil => rfl
  | cons k ks ih =>
    rw [List.cons_append, descend_cons, descend_cons]
    cases v.member? k with
    | none => rfl
    | some w => exact ih w

/-- An object stands at a path. -/
def HoldsObject (v : Value) (p : List String) : Prop := ∃ ms, descend v p = some (.object ms)

theorem isMergeableKey_iff {k : String} : isMergeableKey k = true ↔ k ∉ replacedKeys := by
  simp [isMergeableKey]

/-- Both documents go on with objects along a path, and none of its keys is replaced as a
whole. -/
structure Joined (base overlay : Value) (p : List String) : Prop where
  mergeable : ∀ k ∈ p, k ∉ replacedKeys
  base_object : ∀ q, q <+: p → HoldsObject base q
  overlay_object : ∀ q, q <+: p → HoldsObject overlay q

theorem Joined.of_prefix {base overlay : Value} {p q : List String} (h : Joined base overlay p)
    (hq : q <+: p) : Joined base overlay q where
  mergeable := fun k hk => h.mergeable k (hq.subset hk)
  base_object := fun r hr => h.base_object r (hr.trans hq)
  overlay_object := fun r hr => h.overlay_object r (hr.trans hq)

theorem joined_nil_iff {base overlay : Value} :
    Joined base overlay [] ↔ (∃ mb, base = .object mb) ∧ ∃ mo, overlay = .object mo := by
  constructor
  · intro h
    obtain ⟨mb, hb⟩ := h.base_object [] List.prefix_rfl
    obtain ⟨mo, ho⟩ := h.overlay_object [] List.prefix_rfl
    exact ⟨⟨mb, Option.some.inj hb⟩, ⟨mo, Option.some.inj ho⟩⟩
  · rintro ⟨⟨mb, rfl⟩, ⟨mo, rfl⟩⟩
    refine ⟨by simp, ?_, ?_⟩
    · intro q hq
      rw [List.prefix_nil.mp hq]
      exact ⟨mb, rfl⟩
    · intro q hq
      rw [List.prefix_nil.mp hq]
      exact ⟨mo, rfl⟩

/-- The objects along a path that begins with a key: the root, and those below the key. -/
theorem forall_prefix_cons_iff {ms : Table Value} {k : String} {ks : List String} :
    (∀ q, q <+: k :: ks → HoldsObject (.object ms) q) ↔
      ∃ w, ms.get? k = some w ∧ ∀ q, q <+: ks → HoldsObject w q := by
  constructor
  · intro h
    obtain ⟨m, hm⟩ := h [k] (by simp)
    rw [descend_cons_object, Option.bind_eq_some_iff] at hm
    obtain ⟨w, hw, -⟩ := hm
    refine ⟨w, hw, ?_⟩
    intro q hq
    obtain ⟨m', hm'⟩ := h (k :: q) (List.prefix_cons_inj k |>.mpr hq)
    rw [descend_cons_object, hw, Option.bind_some] at hm'
    exact ⟨m', hm'⟩
  · rintro ⟨w, hw, h⟩ q hq
    cases q with
    | nil => exact ⟨ms, rfl⟩
    | cons k' q' =>
      obtain ⟨rfl, hq'⟩ := List.cons_prefix_cons.mp hq
      obtain ⟨m, hm⟩ := h q' hq'
      refine ⟨m, ?_⟩
      rw [descend_cons_object, hw, Option.bind_some]
      exact hm

/-- A joined path begins with a key that both objects have, and goes on below it. -/
theorem joined_cons_iff {mb mo : Table Value} {k : String} {ks : List String} :
    Joined (.object mb) (.object mo) (k :: ks) ↔
      isMergeableKey k = true ∧
        ∃ b o, mb.get? k = some b ∧ mo.get? k = some o ∧ Joined b o ks := by
  constructor
  · intro h
    obtain ⟨b, hb, hbs⟩ := forall_prefix_cons_iff.mp h.base_object
    obtain ⟨o, ho, hos⟩ := forall_prefix_cons_iff.mp h.overlay_object
    obtain ⟨hk, hks⟩ := List.forall_mem_cons.mp h.mergeable
    exact ⟨isMergeableKey_iff.mpr hk, b, o, hb, ho, hks, hbs, hos⟩
  · rintro ⟨hk, b, o, hb, ho, h⟩
    refine ⟨?_, ?_, ?_⟩
    · exact List.forall_mem_cons.mpr ⟨isMergeableKey_iff.mp hk, h.mergeable⟩
    · exact forall_prefix_cons_iff.mpr ⟨b, hb, h.base_object⟩
    · exact forall_prefix_cons_iff.mpr ⟨o, ho, h.overlay_object⟩

/-! ### Merging one level -/

theorem merge_object (mb mo : Table Value) :
    merge (.object mb) (.object mo) = .object (mergeTables mb mo) := by
  rw [merge]
  rfl

/-- Where one side is no object the overlay wins as a whole. -/
theorem merge_of_not_objects {base overlay : Value}
    (h : ¬ ((∃ mb, base = .object mb) ∧ ∃ mo, overlay = .object mo)) :
    merge base overlay = overlay := by
  unfold merge
  split
  · exact absurd ⟨⟨_, rfl⟩, ⟨_, rfl⟩⟩ h
  · rfl

/-- What the overlay's member of a name becomes. -/
def overMember (mb : Table Value) (k : String) (v : Value) : Value :=
  match mb.get? k with
  | some b => if isMergeableKey k then merge b v else v
  | none => v

theorem overMembers_eq_map (mb mo : Table Value) :
    overMembers mb mo = mo.map fun m => (m.1, overMember mb m.1 m.2) := by
  induction mo with
  | nil => rfl
  | cons m rest ih =>
    obtain ⟨k, v⟩ := m
    rw [overMembers, ih]
    rfl

@[simp] theorem keys_overMembers (mb mo : Table Value) :
    Table.keys (overMembers mb mo) = Table.keys mo := by
  rw [overMembers_eq_map]
  exact Table.keys_map_snd mo fun m => overMember mb m.1 m.2

theorem get?_overMembers (mb mo : Table Value) (k : String) :
    Table.get? (overMembers mb mo) k = (Table.get? mo k).map (overMember mb k) := by
  rw [overMembers_eq_map]
  exact Table.get?_map_snd mo (fun m => overMember mb m.1 m.2) k

/-- The keys of the overlay come first; then those that only the base has. -/
theorem keys_mergeTables (mb mo : Table Value) :
    (mergeTables mb mo).keys = mo.keys ++ mb.keys.filter fun k => k ∉ mo.keys := by
  have hnew : (fun k => !mo.has k) = fun k => decide (k ∉ mo.keys) := by
    funext k
    simp [← Table.has_iff]
  rw [mergeTables, Table.keys_append, keys_overMembers, baseOnly,
    Table.keys_filter mb fun k => !mo.has k, hnew]

theorem nodup_keys_mergeTables {mb mo : Table Value} (hb : mb.keys.Nodup)
    (ho : mo.keys.Nodup) : (mergeTables mb mo).keys.Nodup := by
  rw [keys_mergeTables, List.nodup_append]
  refine ⟨ho, hb.filter _, ?_⟩
  rintro a ha c hc rfl
  rw [List.mem_filter] at hc
  simp [ha] at hc

theorem get?_baseOnly (mb mo : Table Value) (k : String) :
    (baseOnly mb mo).get? k = if mo.has k = true then none else mb.get? k := by
  have h := Table.get?_filter mb (fun j => !mo.has j) k
  rw [baseOnly, h]
  cases mo.has k <;> rfl

/-- A key of the overlay is looked up there, any other in the base. -/
theorem get?_mergeTables (mb mo : Table Value) (k : String) :
    (mergeTables mb mo).get? k = ((mo.get? k).map (overMember mb k)).or (mb.get? k) := by
  rw [mergeTables, Table.get?_append, get?_overMembers, get?_baseOnly, Table.has]
  cases mo.get? k <;> rfl

/-- A key that both sides have, and that is not replaced, is merged below. -/
theorem get?_mergeTables_of_mergeable {mb mo : Table Value} {k : String} {b o : Value}
    (hk : isMergeableKey k = true) (hb : mb.get? k = some b) (ho : mo.get? k = some o) :
    (mergeTables mb mo).get? k = some (merge b o) := by
  rw [get?_mergeTables, ho, Option.map_some, Option.some_or, overMember, hb]
  simp [hk]

/-- A key that leaves the joined paths takes one side as it is. -/
theorem get?_mergeTables_of_not_joined {mb mo : Table Value} {k : String}
    (h : ¬ Joined (.object mb) (.object mo) [k]) :
    (mergeTables mb mo).get? k = (mo.get? k).or (mb.get? k) := by
  rw [get?_mergeTables]
  cases ho : mo.get? k with
  | none => rfl
  | some o =>
    rw [Option.map_some, Option.some_or, Option.some_or, overMember]
    cases hb : mb.get? k with
    | none => rfl
    | some b =>
      by_cases hk : isMergeableKey k = true
      -- the key may be merged, so it can only be a value that is no object on one side
      · have hbo : merge b o = o := by
          apply merge_of_not_objects
          intro hobj
          exact h (joined_cons_iff.mpr ⟨hk, b, o, hb, ho, joined_nil_iff.mpr hobj⟩)
        simp only [hk, if_true, hbo]
      · simp only [hk]
        rfl

/-! ### Merging along a path -/

/-- Along a joined path, looking up and merging commute. -/
theorem descend_merge_of_joined {base overlay : Value} {p : List String}
    (h : Joined base overlay p) :
    ∃ mb mo, descend base p = some (.object mb) ∧ descend overlay p = some (.object mo) ∧
      descend (merge base overlay) p = some (.object (mergeTables mb mo)) := by
  -- down the path, one level of both documents at a time
  induction p generalizing base overlay with
  | nil =>
    obtain ⟨⟨mb, rfl⟩, ⟨mo, rfl⟩⟩ := joined_nil_iff.mp h
    exact ⟨mb, mo, rfl, rfl, congrArg some (merge_object mb mo)⟩
  | cons k ks ih =>
    have hroot : Joined base overlay [] := h.of_prefix (List.nil_prefix)
    obtain ⟨⟨mb, rfl⟩, ⟨mo, rfl⟩⟩ := joined_nil_iff.mp hroot
    obtain ⟨hk, b, o, hb, ho, hbo⟩ := joined_cons_iff.mp h
    obtain ⟨mb', mo', hb', ho', hm'⟩ := ih hbo
    refine ⟨mb', mo', ?_, ?_, ?_⟩
    · rw [descend_cons_object, hb, Option.bind_some, hb']
    · rw [descend_cons_object, ho, Option.bind_some, ho']
    · rw [merge_object, descend_cons_object, get?_mergeTables_of_mergeable hk hb ho,
        Option.bind_some, hm']

/-- Below a joined path the documents that stand there decide what is joined. -/
theorem joined_append_iff {base overlay b o : Value} {p q : List String}
    (h : Joined base overlay p) (hb : descend base p = some b) (ho : descend overlay p = some o) :
    Joined base overlay (p ++ q) ↔ Joined b o q := by
  induction p generalizing base overlay with
  | nil =>
    rw [← Option.some.inj hb, ← Option.some.inj ho]
    rfl
  | cons k ks ih =>
    obtain ⟨⟨mb, rfl⟩, ⟨mo, rfl⟩⟩ := joined_nil_iff.mp (h.of_prefix List.nil_prefix)
    obtain ⟨hk, b', o', hb', ho', hbo⟩ := joined_cons_iff.mp h
    rw [descend_cons_object, hb', Option.bind_some] at hb
    rw [descend_cons_object, ho', Option.bind_some] at ho
    rw [List.cons_append, joined_cons_iff, ← ih hbo hb ho]
    constructor
    · rintro ⟨-, b'', o'', hb'', ho'', h''⟩
      rw [hb'] at hb''
      rw [ho'] at ho''
      rw [Option.some.inj hb'', Option.some.inj ho'']
      exact h''
    · intro h'
      exact ⟨hk, b', o', hb', ho', h'⟩

/-! ### The description -/

/-- What the overlay laid over the base holds, path by path. -/
structure LaidOver (base overlay result : Value) : Prop where
  /-- At a joined path: an object with the keys of the overlay, then those only the base has. -/
  keys_of_joined : ∀ p, Joined base overlay p →
    ∃ mb mo ms, descend base p = some (.object mb) ∧ descend overlay p = some (.object mo) ∧
      descend result p = some (.object ms) ∧
      Table.keys ms = Table.keys mo ++ (Table.keys mb).filter fun k => k ∉ Table.keys mo
  /-- One key further: the value of the overlay if it has one, else that of the base. -/
  value_of_left : ∀ q k, Joined base overlay q → ¬ Joined base overlay (q ++ [k]) →
    descend result (q ++ [k]) = (descend overlay (q ++ [k])).or (descend base (q ++ [k]))
  /-- Without any joined path: the overlay. -/
  eq_overlay : ¬ Joined base overlay [] → result = overlay

theorem merge_laidOver (base overlay : Value) :
    LaidOver base overlay (merge base overlay) := by
  refine ⟨?_, ?_, ?_⟩
  · intro p hp
    obtain ⟨mb, mo, hb, ho, hm⟩ := descend_merge_of_joined hp
    exact ⟨mb, mo, mergeTables mb mo, hb, ho, hm, keys_mergeTables mb mo⟩
  · intro q k hq hqk
    obtain ⟨mb, mo, hb, ho, hm⟩ := descend_merge_of_joined hq
    have hk : ¬ Joined (.object mb) (.object mo) [k] := by
      rw [← joined_append_iff hq hb ho]
      exact hqk
    -- only the last key is left to look up, in the three objects at the joined path
    rw [descend_append, descend_append, descend_append, hb, ho, hm]
    simp only [Option.bind_some, descend_object_singleton]
    exact get?_mergeTables_of_not_joined hk
  · intro hroot
    apply merge_of_not_objects
    rwa [← joined_nil_iff]

/-! ### Uniqueness -/

/-- The description of a merged member is contained in that of the whole. -/
theorem LaidOver.member {mb mo ms : Table Value} {k : String} {b o v : Value}
    (h : LaidOver (.object mb) (.object mo) (.object ms))
    (hk : isMergeableKey k = true) (hb : mb.get? k = some b) (ho : mo.get? k = some o)
    (hv : ms.get? k = some v) (hbo : Joined b o []) : LaidOver b o v := by
  have down {p : List String} (hp : Joined b o p) : Joined (.object mb) (.object mo) (k :: p) :=
    joined_cons_iff.mpr ⟨hk, b, o, hb, ho, hp⟩
  have up {p : List String} (hp : Joined (.object mb) (.object mo) (k :: p)) : Joined b o p := by
    obtain ⟨-, b', o', hb', ho', hp'⟩ := joined_cons_iff.mp hp
    rw [hb] at hb'
    rw [ho] at ho'
    rw [Option.some.inj hb', Option.some.inj ho']
    exact hp'
  refine ⟨?_, ?_, ?_⟩
  · intro p hp
    obtain ⟨mb', mo', ms', hb', ho', hs', hkeys⟩ := h.keys_of_joined (k :: p) (down hp)
    rw [descend_cons_object, hb, Option.bind_some] at hb'
    rw [descend_cons_object, ho, Option.bind_some] at ho'
    rw [descend_cons_object, hv, Option.bind_some] at hs'
    exact ⟨mb', mo', ms', hb', ho', hs', hkeys⟩
  · intro q j hq hqj
    have hleft := h.value_of_left (k :: q) j (down hq) (fun hj => hqj (up hj))
    rw [List.cons_append, descend_cons_object, descend_cons_object, descend_cons_object, hb, ho,
      hv] at hleft
    exact hleft
  · intro hroot
    exact absurd hbo hroot

/-- Only one value fits the description. -/
theorem LaidOver.eq_merge {base overlay result : Value} (hb : base.WellFormed)
    (ho : overlay.WellFormed) (h : LaidOver base overlay result) :
    result = merge base overlay := by
  by_cases hroot : Joined base overlay []
  · obtain ⟨⟨mb, rfl⟩, ⟨mo, rfl⟩⟩ := joined_nil_iff.mp hroot
    obtain ⟨mb', mo', ms, hmb, hmo, hms, hkeys⟩ := h.keys_of_joined [] hroot
    obtain rfl : mb = mb' := Value.object.inj (Option.some.inj hmb)
    obtain rfl : mo = mo' := Value.object.inj (Option.some.inj hmo)
    obtain rfl : result = .object ms := Option.some.inj hms
    rw [merge_object]
    have hmkeys : Table.keys ms = Table.keys (mergeTables mb mo) := by
      rw [hkeys, keys_mergeTables]
    have hnodup : (Table.keys ms).Nodup := by
      rw [hmkeys]
      exact nodup_keys_mergeTables (wellFormed_object.mp hb).1 (wellFormed_object.mp ho).1
    -- the keys agree, so look-ups decide; below a joined key both values are merged again
    refine congrArg Value.object (Table.eq_of_get?_eq hnodup hmkeys ?_)
    intro k hkmem
    by_cases hjoined : Joined (.object mb) (.object mo) [k]
    · obtain ⟨hk, b, o, hbk, hok, hbo⟩ := joined_cons_iff.mp hjoined
      obtain ⟨v, hv⟩ := Table.exists_get?_of_mem_keys hkmem
      have hmember : LaidOver b o v := h.member hk hbk hok hv hbo
      have hsize : sizeOf b < sizeOf (Value.object mb) := sizeOf_lt_of_get? hbk
      have ih : v = merge b o := hmember.eq_merge (hb.of_get? hbk) (ho.of_get? hok)
      rw [hv, get?_mergeTables_of_mergeable hk hbk hok, ih]
    · have hleft := h.value_of_left [] k hroot hjoined
      rw [List.nil_append, descend_object_singleton, descend_object_singleton,
        descend_object_singleton] at hleft
      rw [hleft, get?_mergeTables_of_not_joined hjoined]
  · rw [h.eq_overlay hroot]
    exact ((merge_laidOver base overlay).eq_overlay hroot).symm
termination_by sizeOf base

/-- Merging keeps documents well-formed. -/
theorem WellFormed.merge {base overlay : Value} (hb : base.WellFormed)
    (ho : overlay.WellFormed) : (Value.merge base overlay).WellFormed := by
  by_cases hroot : Joined base overlay []
  · obtain ⟨⟨mb, rfl⟩, ⟨mo, rfl⟩⟩ := joined_nil_iff.mp hroot
    have hnodup : (mergeTables mb mo).keys.Nodup :=
      nodup_keys_mergeTables (wellFormed_object.mp hb).1 (wellFormed_object.mp ho).1
    rw [merge_object]
    refine .object hnodup ?_
    rintro ⟨k, v⟩ hmem
    have hget : (mergeTables mb mo).get? k = some v := Table.get?_eq_some_of_mem hnodup hmem
    by_cases hjoined : Joined (.object mb) (.object mo) [k]
    · obtain ⟨hk, b, o, hbk, hok, -⟩ := joined_cons_iff.mp hjoined
      have hsize : sizeOf b < sizeOf (Value.object mb) := sizeOf_lt_of_get? hbk
      rw [get?_mergeTables_of_mergeable hk hbk hok] at hget
      rw [← Option.some.inj hget]
      exact (hb.of_get? hbk).merge (ho.of_get? hok)
    · rw [get?_mergeTables_of_not_joined hjoined, Option.or_eq_some_iff] at hget
      rcases hget with hok | ⟨-, hbk⟩
      · exact ho.of_get? hok
      · exact hb.of_get? hbk
  · rw [(merge_laidOver base overlay).eq_overlay hroot]
    exact ho
termination_by sizeOf base

/-- **Merging is determined path by path.**  The merged value has the description of the overlay
laid over the base, for all values; and for well-formed ones nothing else has it. -/
theorem merge_determined (base overlay : Value) :
    LaidOver base overlay (merge base overlay) ∧
      (base.WellFormed → overlay.WellFormed →
        ∀ result, LaidOver base overlay result → result = merge base overlay) :=
  ⟨merge_laidOver base overlay, fun hb ho _ h => h.eq_merge hb ho⟩

/-- The keys of collections, each with an object that has one member. -/
def collections (member : String) : Table Value :=
  [("rules", .object [(member, .null)]), ("breakpoints", .object [(member, .null)]),
   ("colors", .object [(member, .null)]), ("spacements", .object [(member, .null)])]

/-- Of a section that both documents have, the members of the upper one come first; of a
collection that both have, those of the upper one alone are left. -/
theorem merge_determined_section :
    LaidOver (.object (("theme", .object [("size", .null)]) :: collections "a"))
        (.object (("theme", .object [("dark", .bool true)]) :: collections "b"))
        (.object (("theme", .object [("dark", .bool true), ("size", .null)]) ::
          collections "b")) ∧
      ∀ result, LaidOver (.object (("theme", .object [("size", .null)]) :: collections "a"))
          (.object (("theme", .object [("dark", .bool true)]) :: collections "b")) result →
        result = .object (("theme", .object [("dark", .bool true), ("size", .null)]) ::
          collections "b") :=
  ⟨(merge_determined _ _).1,
    (merge_determined _ _).2 (by simp [collections]) (by simp [collections])⟩

end Json.Value

end TokenSheets
