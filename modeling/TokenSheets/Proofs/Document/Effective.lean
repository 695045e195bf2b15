/-
TokenSheets/Proofs/Document/Effective.lean

The configuration tree of a project.

The tree is a document that was read, or two of them merged.  So it is
well-formed whatever the files contain, and a check of it may rely on that.  Its
digest is there for the same reason, and asking for it late cannot fail.
-/
import TokenSheets.Proofs.Json.Canonical
import TokenSheets.Proofs.Json.Read
import TokenSheets.Proofs.Document.Merge

namespace TokenSheets

open Json Outcome

namespace Effective

theorem wellFormed_of_parseDocument {p : Path} {contents : ByteArray} {v : Value}
    (h : parseDocument p contents = .ok v) : v.WellFormed := by
  unfold parseDocument at h
  simp only at h
  split at h
  · cases h
  · split at h
    · cases h
    · rename_i w hread
      split at h
      · rw [← Except.ok.inj h]
        exact wellFormed_of_readBytes hread
      · cases h

theorem wellFormed_of_loadDocument {t : FileTree} {p : Path} {v : Value} {digest : String}
    (h : loadDocument t p = .ok (v, digest)) : v.WellFormed := by
  simp only [loadDocument, bind_eq_ok, pure_eq_ok] at h
  obtain ⟨contents, -, w, hw, hpair⟩ := h
  rw [← (Prod.mk.inj hpair).1]
  exact wellFormed_of_parseDocument hw

theorem wellFormed_of_userSource {t : FileTree} {p : Path} {v : Value}
    (h : (userSource t p).1 = some v) : v.WellFormed := by
  unfold userSource at h
  split at h
  · cases h
  · split at h
    · rename_i w digest hload
      rw [← Option.some.inj h]
      exact wellFormed_of_loadDocument hload
    · cases h

/-- Every configuration tree is well-formed. -/
theorem wellFormed_of_resolve {t : FileTree} {default : Path} {user : Option Path}
    {e : Effective} (h : resolve t default user = .ok e) : e.config.WellFormed := by
  simp only [resolve, bind_eq_ok] at h
  obtain ⟨⟨v, digest⟩, hload, h⟩ := h
  have hv : v.WellFormed := wellFormed_of_loadDocument hload
  cases user with
  | none =>
    rw [← pure_eq_ok.mp h]
    exact hv
  | some p =>
    rw [← pure_eq_ok.mp h]
    show (ofValues v (userSource t p).1 _).config.WellFormed
    cases huser : (userSource t p).1 with
    | none => exact hv
    | some w => exact hv.merge (wellFormed_of_userSource huser)

/-! ### The digest -/

theorem digest_of_wellFormed {e : Effective} (h : e.config.WellFormed) :
    e.digest = .ok (Sha256.hexOfText (String.ofList e.config.canonical)) := by
  rw [digest, h.fingerprint_eq]
  rfl

/-- Every configuration that was resolved has a digest. -/
theorem exists_digest_of_resolve {t : FileTree} {default : Path} {user : Option Path}
    {e : Effective} (h : resolve t default user = .ok e) : ∃ d, e.digest = .ok d :=
  ⟨_, digest_of_wellFormed (wellFormed_of_resolve h)⟩

end Effective

end TokenSheets
