/-
TokenSheets/Proofs/Document/Layers.lean

Documents laid over each other.

Of three documents it hardly matters which two are merged first.  It does at a
path of merged keys where the outer two hold objects and the middle one holds
some other value (`BrokenAt`).  Merged from below, that value drops the lower
object before the upper one comes; merged from above, it is itself dropped, and
the two objects are joined (`BrokenAt.descend_merge`).  Nothing else stands in
the way: merging is associative exactly if no lower object is missed at such a
path (`merge_assoc_iff`), so in particular if there is none (`config_of_layers`).

Merging a document with itself gives it back (`merge_self`).  Two equal
documents next to each other never break anything, so both absorption laws are
associativity with one document written twice (`merge_absorbs`).

At a single key merging is an operation on the values that the two sides have
there, if they have any (`layer`).  The laws are proved for that operation and
carried to tables, where the order of the keys has to agree as well.
-/
import TokenSheets.Proofs.Document.Merge

namespace TokenSheets

open Json Effective

namespace Json.Value

/-! ### At one key -/

/-- What two sides give together at a key. -/
def layer (k : String) : Option Value → Option Value → Option Value
  | some b, some o => some (if isMergeableKey k then merge b o else o)
  | b, o => o.or b

@[simp] theorem layer_none_left (k : String) (o : Option Value) : layer k none o = o := by
  cases o <;> rfl

@[simp] theorem layer_none_right (k : String) (b : Option Value) : layer k b none = b := by
  cases b <;> rfl

theorem layer_some (k : String) (b o : Value) :
    layer k (some b) (some o) = some (if isMergeableKey k then merge b o else o) := rfl

/-- A merged table holds at each key what the two tables give together. -/
theorem get?_mergeTables_eq_layer (mb mo : Table Value) (k : String) :
    (mergeTables mb mo).get? k = layer k (mb.get? k) (mo.get? k) := by
  rw [get?_mergeTables]
  cases mo.get? k with
  | none => simp
  | some o =>
    rw [Option.map_some, Option.some_or, overMember]
    cases mb.get? k with
    | none => rfl
    | some b => rfl

/-- Three sides may be taken together from below or from above, if their values may. -/
theorem layer_assoc {k : String} {a b c : Option Value}
    (h : ∀ x y z, a = some x → b = some y → c = some z → isMergeableKey k = true →
      merge (merge x y) z = merge x (merge y z)) :
    layer k (layer k a b) c = layer k a (layer k b c) := by
  -- a side without the key drops out, so only three values leave anything to show
  cases a with
  | none => simp
  | some x =>
    cases b with
    | none => simp
    | some y =>
      cases c with
      | none => simp
      | some z =>
        simp only [layer_some]
        by_cases hk : isMergeableKey k = true
        · simp only [hk, if_true, h x y z rfl rfl rfl hk]
        · simp only [hk, if_false, Bool.false_eq_true]

/-! ### Of tables -/

/-- Keys that the overlay has as well are not listed again. -/
theorem keys_mergeTables_of_subset {mb mo : Table Value} (h : mb.keys ⊆ mo.keys) :
    (mergeTables mb mo).keys = mo.keys := by
  have hnone : mb.keys.filter (fun k => k ∉ mo.keys) = [] := by
    rw [List.filter_eq_nil_iff]
    intro k hk
    simp [h hk]
  rw [keys_mergeTables, hnone, List.append_nil]

/-- Three lists of keys come out in the same order from below and from above. -/
theorem keys_mergeTables_assoc (ma mb mc : Table Value) :
    (mergeTables (mergeTables ma mb) mc).keys = (mergeTables ma (mergeTables mb mc)).keys := by
  -- the last keys are those that the lowest table alone has, from below in two steps
  have hlast : (ma.keys.filter fun k => k ∉ mb.keys).filter (fun k => k ∉ mc.keys) =
      ma.keys.filter fun k => k ∉ mc.keys ++ mb.keys.filter fun k => k ∉ mc.keys := by
    rw [List.filter_filter]
    refine List.filter_congr fun k _ => ?_
    by_cases hb : k ∈ mb.keys <;> by_cases hc : k ∈ mc.keys <;> simp [hb, hc]
  rw [keys_mergeTables, keys_mergeTables, keys_mergeTables, keys_mergeTables, List.filter_append,
    hlast, List.append_assoc]

/-- Three tables come out the same from below and from above, if the values of each key do that
all three have. -/
theorem mergeTables_assoc {ma mb mc : Table Value} (ha : ma.keys.Nodup) (hb : mb.keys.Nodup)
    (hc : mc.keys.Nodup)
    (h : ∀ k x y z, ma.get? k = some x → mb.get? k = some y → mc.get? k = some z →
      isMergeableKey k = true → merge (merge x y) z = merge x (merge y z)) :
    mergeTables (mergeTables ma mb) mc = mergeTables ma (mergeTables mb mc) := by
  have hnodup : (mergeTables (mergeTables ma mb) mc).keys.Nodup :=
    nodup_keys_mergeTables (nodup_keys_mergeTables ha hb) hc
  -- the keys stand in the same order, so it is enough to look each of them up
  apply Table.eq_of_get?_eq hnodup (keys_mergeTables_assoc ma mb mc)
  intro k _
  simp only [get?_mergeTables_eq_layer]
  exact layer_assoc (h k)

/-! ### Objects on one side only -/

theorem merge_of_base_not_object {base : Value} (h : ∀ mb, base ≠ .object mb) (overlay : Value) :
    merge base overlay = overlay :=
  merge_of_not_objects fun hobj => by
    obtain ⟨mb, hmb⟩ := hobj.1
    exact h mb hmb

theorem merge_of_overlay_not_object {overlay : Value} (h : ∀ mo, overlay ≠ .object mo)
    (base : Value) : merge base overlay = overlay :=
  merge_of_not_objects fun hobj => by
    obtain ⟨mo, hmo⟩ := hobj.2
    exact h mo hmo

/-! ### A document over itself -/

/-- A document laid over itself gives nothing new. -/
theorem merge_self {v : Value} (hv : v.WellFormed) : merge v v = v := by
  by_cases hobj : ∃ ms : Table Value, v = .object ms
  · obtain ⟨ms, rfl⟩ := hobj
    have hkeys : (mergeTables ms ms).keys = ms.keys :=
      keys_mergeTables_of_subset (List.Subset.refl _)
    have hnodup : ms.keys.Nodup := (wellFormed_object.mp hv).1
    rw [merge_object]
    refine congrArg Value.object (Table.eq_of_get?_eq (hkeys ▸ hnodup) hkeys ?_)
    intro k _
    rw [get?_mergeTables_eq_layer]
    cases hk : ms.get? k with
    | none => rfl
    | some w =>
      -- both values of the key are the same smaller document
      have hsize : sizeOf w < sizeOf (Value.object ms) := sizeOf_lt_of_get? hk
      have ih : merge w w = w := merge_self (hv.of_get? hk)
      rw [layer_some, ih, ite_self]
  · exact merge_of_overlay_not_object (fun ms hms => hobj ⟨ms, hms⟩) v
termination_by sizeOf v

/-! ### Three documents -/

/-- At a path of merged keys the outer two of three documents hold objects, and the middle one
holds a value that is none. -/
structure BrokenAt (a b c : Value) (p : List String) : Prop where
  mergeable : ∀ k ∈ p, k ∉ replacedKeys
  lower : HoldsObject a p
  upper : HoldsObject c p
  middle : ∃ v, descend b p = some v ∧ ∀ ms, v ≠ .object ms

/-- A path leads on from an object that has its first key. -/
theorem descend_cons_eq_some_iff {v w : Value} {k : String} {ks : List String} :
    descend v (k :: ks) = some w ↔
      ∃ (ms : Table Value) (u : Value), v = .object ms ∧ ms.get? k = some u ∧
        descend u ks = some w := by
  constructor
  · intro h
    rw [descend_cons, Option.bind_eq_some_iff] at h
    obtain ⟨u, hu, hw⟩ := h
    cases v with
    | object ms => exact ⟨ms, u, rfl, hu, hw⟩
    | _ => cases hu
  · rintro ⟨ms, u, rfl, hu, hw⟩
    rw [descend_cons_object, hu, Option.bind_some, hw]

/-- Three objects are broken at a path if they are below its first key, which all of them have. -/
theorem brokenAt_cons_iff {a b c : Value} {k : String} {p : List String} :
    BrokenAt a b c (k :: p) ↔
      isMergeableKey k = true ∧ ∃ (ma mb mc : Table Value) (x y z : Value),
        a = .object ma ∧ b = .object mb ∧ c = .object mc ∧
        ma.get? k = some x ∧ mb.get? k = some y ∧ mc.get? k = some z ∧ BrokenAt x y z p := by
  constructor
  · rintro ⟨hkeys, ⟨ml, hl⟩, ⟨mu, hu⟩, v, hv, hne⟩
    obtain ⟨hk, hp⟩ := List.forall_mem_cons.mp hkeys
    obtain ⟨ma, x, rfl, hx, hl⟩ := descend_cons_eq_some_iff.mp hl
    obtain ⟨mc, z, rfl, hz, hu⟩ := descend_cons_eq_some_iff.mp hu
    obtain ⟨mb, y, rfl, hy, hv⟩ := descend_cons_eq_some_iff.mp hv
    exact ⟨isMergeableKey_iff.mpr hk, ma, mb, mc, x, y, z, rfl, rfl, rfl, hx, hy, hz, hp, ⟨ml, hl⟩,
      ⟨mu, hu⟩, v, hv, hne⟩
  · rintro ⟨hk, ma, mb, mc, x, y, z, rfl, rfl, rfl, hx, hy, hz, h⟩
    obtain ⟨hp, ⟨ml, hl⟩, ⟨mu, hu⟩, v, hv, hne⟩ := h
    refine ⟨List.forall_mem_cons.mpr ⟨isMergeableKey_iff.mp hk, hp⟩, ⟨ml, ?_⟩, ⟨mu, ?_⟩, v, ?_, hne⟩
    · exact descend_cons_eq_some_iff.mpr ⟨ma, x, rfl, hx, hl⟩
    · exact descend_cons_eq_some_iff.mpr ⟨mc, z, rfl, hz, hu⟩
    · exact descend_cons_eq_some_iff.mpr ⟨mb, y, rfl, hy, hv⟩

/-- What stands at a broken path: merged from below the upper object alone, merged from above
both. -/
theorem BrokenAt.descend_merge {a b c x z : Value} {p : List String} (h : BrokenAt a b c p)
    (hx : descend a p = some x) (hz : descend c p = some z) :
    descend (merge (merge a b) c) p = some z ∧
      descend (merge a (merge b c)) p = some (merge x z) := by
  -- down the path: above the broken place all three hold objects and the key is merged
  induction p generalizing a b c with
  | nil =>
    obtain rfl : a = x := Option.some.inj hx
    obtain rfl : c = z := Option.some.inj hz
    obtain ⟨v, hv, hne⟩ := h.middle
    obtain rfl : b = v := Option.some.inj hv
    rw [merge_of_overlay_not_object hne, merge_of_base_not_object hne]
    exact ⟨rfl, rfl⟩
  | cons k p ih =>
    obtain ⟨hk, ma, mb, mc, x', y', z', rfl, rfl, rfl, hx', hy', hz', hbelow⟩ :=
      brokenAt_cons_iff.mp h
    rw [descend_cons_object, hx', Option.bind_some] at hx
    rw [descend_cons_object, hz', Option.bind_some] at hz
    obtain ⟨hleft, hright⟩ := ih hbelow hx hz
    have hlower := get?_mergeTables_of_mergeable hk hx' hy'
    have hupper := get?_mergeTables_of_mergeable hk hy' hz'
    simp only [merge_object, descend_cons_object]
    rw [get?_mergeTables_of_mergeable hk hlower hz', get?_mergeTables_of_mergeable hk hx' hupper]
    exact ⟨hleft, hright⟩

/-- Three documents may be merged from below or from above if nothing is lost where they are
broken, because the lower object adds nothing to the upper one. -/
theorem merge_assoc_of_kept {a b c : Value} (ha : a.WellFormed) (hb : b.WellFormed)
    (hc : c.WellFormed)
    (h : ∀ p x z, BrokenAt a b c p → descend a p = some x → descend c p = some z →
      merge x z = z) :
    merge (merge a b) c = merge a (merge b c) := by
  by_cases hcobj : ∃ mc, c = .object mc
  · obtain ⟨mc, rfl⟩ := hcobj
    by_cases haobj : ∃ ma, a = .object ma
    · obtain ⟨ma, rfl⟩ := haobj
      by_cases hbobj : ∃ mb, b = .object mb
      · obtain ⟨mb, rfl⟩ := hbobj
        simp only [merge_object]
        refine congrArg Value.object (mergeTables_assoc (wellFormed_object.mp ha).1
          (wellFormed_object.mp hb).1 (wellFormed_object.mp hc).1 ?_)
        -- a key that all three have, and below it nothing is lost either
        intro k x y z hx hy hz hk
        have hsize : sizeOf x < sizeOf (Value.object ma) := sizeOf_lt_of_get? hx
        apply merge_assoc_of_kept (ha.of_get? hx) (hb.of_get? hy) (hc.of_get? hz)
        intro p x' z' hp hx' hz'
        apply h (k :: p)
        · exact brokenAt_cons_iff.mpr ⟨hk, ma, mb, mc, x, y, z, rfl, rfl, rfl, hx, hy, hz, hp⟩
        · exact descend_cons_eq_some_iff.mpr ⟨ma, x, rfl, hx, hx'⟩
        · exact descend_cons_eq_some_iff.mpr ⟨mc, z, rfl, hz, hz'⟩
      -- the three are broken at the root: only the order from above joins the outer two
      · have hbne : ∀ mb, b ≠ .object mb := fun mb hmb => hbobj ⟨mb, hmb⟩
        have hroot : BrokenAt (.object ma) b (.object mc) [] :=
          ⟨by simp, ⟨ma, rfl⟩, ⟨mc, rfl⟩, b, rfl, hbne⟩
        rw [merge_of_overlay_not_object hbne, merge_of_base_not_object hbne]
        exact (h [] _ _ hroot rfl rfl).symm
    · have hlowest : ∀ o, merge a o = o :=
        merge_of_base_not_object fun ma hma => haobj ⟨ma, hma⟩
      rw [hlowest, hlowest]
  · have htopmost : ∀ v, merge v c = c :=
      merge_of_overlay_not_object fun mc hmc => hcobj ⟨mc, hmc⟩
    rw [htopmost, htopmost, htopmost]
termination_by sizeOf a

/-- Nothing else stands in the way: if something is lost where three documents are broken, the two
orders differ there. -/
theorem merge_assoc_iff {a b c : Value} (ha : a.WellFormed) (hb : b.WellFormed)
    (hc : c.WellFormed) :
    merge (merge a b) c = merge a (merge b c) ↔
      ∀ p x z, BrokenAt a b c p → descend a p = some x → descend c p = some z →
        merge x z = z := by
  refine ⟨?_, merge_assoc_of_kept ha hb hc⟩
  intro heq p x z hp hx hz
  obtain ⟨hleft, hright⟩ := hp.descend_merge hx hz
  rw [heq, hright] at hleft
  exact Option.some.inj hleft

/-- A document next to itself breaks nothing, since the two hold the same. -/
theorem not_brokenAt_lower (a c : Value) (p : List String) : ¬ BrokenAt a a c p := by
  rintro ⟨-, ⟨ma, ha⟩, -, v, hv, hne⟩
  exact hne ma (Option.some.inj (hv.symm.trans ha))

theorem not_brokenAt_upper (a c : Value) (p : List String) : ¬ BrokenAt a c c p := by
  rintro ⟨-, -, ⟨mc, hc⟩, v, hv, hne⟩
  exact hne mc (Option.some.inj (hv.symm.trans hc))

end Json.Value

/-! ### Documents of a project -/

namespace Effective

open Json.Value

/-- **Documents may be combined beforehand.**  If nothing breaks three documents, then merging
them one after the other and merging the upper two first give the same tree, with the same order
of keys at every level. -/
theorem config_of_layers {a b c : Value} (ha : a.WellFormed) (hb : b.WellFormed)
    (hc : c.WellFormed) (h : ∀ p, ¬ BrokenAt a b c p) (sources : List Source) :
    merge (merge a b) c = merge a (merge b c) ∧
      (ofValues (ofValues a (some b) sources).config (some c) sources).config =
        (ofValues a (some (merge b c)) sources).config := by
  have hassoc : merge (merge a b) c = merge a (merge b c) := by
    rw [merge_assoc_iff ha hb hc]
    intro p _ _ hp
    exact absurd hp (h p)
  exact ⟨hassoc, hassoc⟩

/-- A section of three documents: the middle one replaces a value of the lowest, and the topmost
one adds to an object that only the lowest has. -/
theorem config_of_layers_section :
    let a : Value := .object [("theme", .object [("size", .object []), ("dark", .null)])]
    let b : Value := .object [("theme", .object [("dark", .bool true)])]
    let c : Value := .object [("theme", .object [("size", .object [("sm", .null)])])]
    (∀ p, ¬ BrokenAt a b c p) ∧ merge (merge a b) c = merge a (merge b c) := by
  intro a b c
  have h : ∀ p, ¬ BrokenAt a b c p := by
    rintro p ⟨-, ⟨ma, ha⟩, -, v, hv, hne⟩
    match p with
    | [] => exact hne _ (Option.some.inj hv).symm
    | [k] =>
      by_cases hk : "theme" = k
      · subst hk
        exact hne _ (Option.some.inj hv).symm
      · simp [b, descend_cons_object, Table.get?_cons, hk] at hv
    | k :: j :: q =>
      by_cases hk : "theme" = k
      · subst hk
        by_cases hj : "dark" = j
        -- only here the middle document holds something else, and the lowest has no object
        · subst hj
          have hnull : descend .null q = some (.object ma) := ha
          cases q <;> cases hnull
        · simp [b, descend_cons_object, Table.get?_cons, hj] at hv
      · simp [b, descend_cons_object, Table.get?_cons, hk] at hv
  exact ⟨h, (config_of_layers (by simp [a]) (by simp [b]) (by simp [c]) h []).1⟩

/-- **What the defaults know already is absorbed.**  Merging a document with itself, laying a
merged tree over its base and laying the overlay over a merged tree once more change nothing, not
even the order of keys.  So a user document that repeats the defaults resolves to the defaults,
and one that was saved from a resolved tree resolves to that tree. -/
theorem merge_absorbs {base user : Value} (hb : base.WellFormed) (hu : user.WellFormed)
    (sources : List Source) :
    merge base base = base ∧
      merge base (merge base user) = merge base user ∧
      merge (merge base user) user = merge base user ∧
      (ofValues base (some base) sources).config = (ofValues base none sources).config ∧
      (ofValues base (some (ofValues base (some user) sources).config) sources).config =
        (ofValues base (some user) sources).config := by
  have hbase : merge base base = base := merge_self hb
  -- both from associativity, with the base written twice or the overlay
  have hlower : merge base (merge base user) = merge base user := by
    have hassoc : merge (merge base base) user = merge base (merge base user) :=
      (merge_assoc_iff hb hb hu).mpr fun p _ _ hp => absurd hp (not_brokenAt_lower base user p)
    rw [← hassoc, hbase]
  have hupper : merge (merge base user) user = merge base user := by
    have hassoc : merge (merge base user) user = merge base (merge user user) :=
      (merge_assoc_iff hb hu hu).mpr fun p _ _ hp => absurd hp (not_brokenAt_upper base user p)
    rw [hassoc, merge_self hu]
  exact ⟨hbase, hlower, hupper, hbase, hlower⟩

/-- A section whose keys the overlay has in another order. -/
theorem merge_absorbs_section :
    let base : Value := .object [("theme", .object [("size", .null), ("dark", .null)])]
    let user : Value := .object [("theme", .object [("dark", .bool true)])]
    let merged : Value := .object [("theme", .object [("dark", .bool true), ("size", .null)])]
    merge base user = merged ∧ merge base merged = merged ∧ merge merged user = merged := by
  intro base user merged
  have hmerged : merge base user = merged := by rfl
  have hbase : base.WellFormed := by simp [base]
  have huser : user.WellFormed := by simp [user]
  obtain ⟨-, hlower, hupper, -, -⟩ := merge_absorbs hbase huser []
  rw [hmerged] at hlower hupper
  exact ⟨hmerged, hlower, hupper⟩

end Effective

end TokenSheets
