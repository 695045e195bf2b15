/-
TokenSheets/Proofs/Document/Fingerprint.lean

The fingerprint of a configuration.

Merging lists the keys of the overlay first, so the merged tree follows the
order of keys in both documents.  But it follows nothing else of that order:
documents that are reordered give merged trees that are reordered
(`Reordered.merge`), key by key what they give at the key (`layer_reordered`).
The canonical text of the tree, and so the digest of a configuration, does not
see the order at all (`digest_of_reordered`).
-/
import TokenSheets.Proofs.Document.Effective
import TokenSheets.Proofs.Document.Layers

namespace TokenSheets

open Json Effective

namespace Json.Value

/-! ### Merging one level -/

/-- The keys of merged tables are the same ones if those of the two sides are. -/
theorem keys_mergeTables_perm {mb mb' mo mo' : Table Value} (hb : mb.keys.Perm mb'.keys)
    (ho : mo.keys.Perm mo'.keys) : (mergeTables mb mo).keys.Perm (mergeTables mb' mo').keys := by
  have hsame : (fun k => decide (k ∉ mo.keys)) = fun k => decide (k ∉ mo'.keys) := by
    funext k
    simp only [ho.mem_iff]
  rw [keys_mergeTables, keys_mergeTables, hsame]
  exact ho.append (hb.filter _)

/-- What two sides give at a key is reordered if the values there are, and merging those gives
reordered values. -/
theorem layer_reordered {k : String} {b b' o o' : Option Value} (hb : Option.Rel Reordered b b')
    (ho : Option.Rel Reordered o o')
    (hmerge : ∀ x x' y y', b = some x → b' = some x' → Reordered y y' →
      Reordered (merge x y) (merge x' y')) :
    Option.Rel Reordered (layer k b o) (layer k b' o') := by
  -- reordering leaves the keys alone, so a side lacks the key in both runs or in none
  cases hb with
  | none => simpa using ho
  | @some x x' hx =>
    cases ho with
    | none => simpa using Option.Rel.some hx
    | @some y y' hy =>
      rw [layer_some, layer_some]
      by_cases hk : isMergeableKey k = true
      · simp only [hk, if_true]
        exact .some (hmerge x x' y y' rfl rfl hy)
      · simp only [hk, if_false, Bool.false_eq_true]
        exact .some hy

/-! ### Merging -/

/-- **Merging keeps documents reordered.** -/
theorem Reordered.merge {b b' o o' : Value} (hb : Reordered b b') (ho : Reordered o o') :
    Reordered (merge b o) (merge b' o') := by
  -- on the base, because merging goes down the base and the overlay together
  induction hb generalizing o o' with
  | @object mb mb' keys_perm members ih =>
    by_cases hobj : ∃ mo : Table Value, o = .object mo
    · obtain ⟨mo, rfl⟩ := hobj
      cases ho with
      | @object _ mo' keys_perm' members' =>
        rw [merge_object, merge_object]
        refine .object (keys_mergeTables_perm keys_perm keys_perm') ?_
        intro k v w hv hw
        have hlayer : Option.Rel Reordered (layer k (mb.get? k) (mo.get? k))
            (layer k (mb'.get? k) (mo'.get? k)) := by
          apply layer_reordered (Table.rel_get? keys_perm (members k))
            (Table.rel_get? keys_perm' (members' k))
          intro x x' y y' hx hx' hy
          exact ih k x x' hx hx' hy
        rw [← get?_mergeTables_eq_layer, ← get?_mergeTables_eq_layer, hv, hw] at hlayer
        cases hlayer with
        | some h => exact h
    -- an overlay that is no object is no object in any order, and replaces the base
    · have hobj' : ∀ mo' : Table Value, o' ≠ .object mo' := by
        rintro mo' rfl
        cases ho
        exact hobj ⟨_, rfl⟩
      rw [merge_of_overlay_not_object fun mo hmo => hobj ⟨mo, hmo⟩,
        merge_of_overlay_not_object hobj']
      exact ho
  | _ => simpa [merge_of_base_not_object] using ho

end Json.Value

/-! ### Digests -/

namespace Effective

open Json.Value

/-- Reordered trees have one digest. -/
theorem exists_digest_of_reordered {e e' : Effective} (he : e.config.WellFormed)
    (h : Reordered e.config e'.config) : ∃ d, e.digest = .ok d ∧ e'.digest = .ok d := by
  refine ⟨_, digest_of_wellFormed he, ?_⟩
  rw [digest_of_wellFormed (h.wellFormed he), h.canonical_eq he]

/-- **The fingerprint does not depend on the order of keys.**  Two configurations whose documents
differ only in the order of keys, at any depth and in either document, have a digest, and it is the
same one.  That the second documents repeat no key follows from the first ones
(`Reordered.wellFormed`). -/
theorem digest_of_reordered {default default' : Value} (hdefault : default.WellFormed)
    (h : Reordered default default') (sources sources' : List Source) :
    (∃ d, (ofValues default none sources).digest = .ok d ∧
        (ofValues default' none sources').digest = .ok d) ∧
      ∀ user user' : Value, user.WellFormed → Reordered user user' →
        ∃ d, (ofValues default (some user) sources).digest = .ok d ∧
          (ofValues default' (some user') sources').digest = .ok d := by
  refine ⟨exists_digest_of_reordered hdefault h, ?_⟩
  intro user user' huser h'
  exact exists_digest_of_reordered (hdefault.merge huser) (h.merge h')

/-- A list of objects and a section, written in two orders: the merged trees differ, and their
digest is one. -/
theorem digest_of_reordered_section :
    let default : Value := .object
      [("list", .array [.object [("a", .null), ("b", .null)]]), ("theme", .object [])]
    let default' : Value := .object
      [("theme", .object []), ("list", .array [.object [("b", .null), ("a", .null)]])]
    let user : Value := .object [("theme", .object [("dark", .null), ("size", .null)])]
    let user' : Value := .object [("theme", .object [("size", .null), ("dark", .null)])]
    merge default user ≠ merge default' user' ∧
      ∃ d, (ofValues default (some user) []).digest = .ok d ∧
        (ofValues default' (some user') []).digest = .ok d := by
  intro default default' user user'
  have hdefault : Reordered default default' := by
    refine .object (by decide) fun k v w hv hw => ?_
    by_cases hlist : "list" = k
    · subst hlist
      obtain rfl := Option.some.inj hv
      obtain rfl := Option.some.inj hw
      refine .array rfl fun i v w hv hw => ?_
      match i with
      | 0 =>
        obtain rfl := Option.some.inj hv
        obtain rfl := Option.some.inj hw
        exact .of_perm (by decide) (List.Perm.swap _ _ _)
    · by_cases htheme : "theme" = k
      · subst htheme
        obtain rfl := Option.some.inj hv
        obtain rfl := Option.some.inj hw
        exact .refl _
      · simp [Table.get?_cons, hlist, htheme] at hv
  have huser : Reordered user user' := by
    refine .object (by decide) fun k v w hv hw => ?_
    by_cases htheme : "theme" = k
    · subst htheme
      obtain rfl := Option.some.inj hv
      obtain rfl := Option.some.inj hw
      exact .of_perm (by decide) (List.Perm.swap _ _ _)
    · simp [Table.get?_cons, htheme] at hv
  refine ⟨?_, ?_⟩
  · intro h
    have hkeys := congrArg (fun v => (descend v ["theme"]).map fun w => w.members?.map Table.keys) h
    revert hkeys
    decide
  · exact (digest_of_reordered (by simp [default]) hdefault [] []).2 user user' (by simp [user])
      huser

end Effective

end TokenSheets
