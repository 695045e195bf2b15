/-
TokenSheets/Proofs/Json/Depth.lean

Values inside values, and how many of them a reader accepts.

A scanner that finds one container too many inside others shows a fault in its
place, and goes on behind it.  So what is shown of a value is the value, or
something that cannot be read because it is too deep (`Shows`); which of the two
is decided by the depth of the value and by how many containers are open around
it.  Lists and objects are put together from what is shown of their items.
-/
import TokenSheets.Proofs.Json.Read

namespace TokenSheets.Json

open Outcome

/-! ### How deep a value is -/

namespace Value

mutual

/-- How many containers lie inside each other. -/
def depth : Value → Nat
  | .array items => depthOfItems items + 1
  | .object members => depthOfMembers members + 1
  | .null | .bool _ | .number _ | .string _ => 0

def depthOfItems : List Value → Nat
  | [] => 0
  | v :: vs => max v.depth (depthOfItems vs)

def depthOfMembers : List (String × Value) → Nat
  | [] => 0
  | (_, v) :: ms => max v.depth (depthOfMembers ms)

end

theorem depthOfItems_le {vs : List Value} {n : Nat} (h : ∀ v ∈ vs, v.depth ≤ n) :
    depthOfItems vs ≤ n := by
  induction vs with
  | nil => exact Nat.zero_le n
  | cons v rest ih =>
    obtain ⟨hv, hrest⟩ := List.forall_mem_cons.mp h
    exact Nat.max_le.mpr ⟨hv, ih hrest⟩

theorem depth_array_map_le {α : Type} {write : α → Value} {as : List α} {n : Nat}
    (h : ∀ a, (write a).depth ≤ n) : (Value.array (as.map write)).depth ≤ n + 1 := by
  apply Nat.succ_le_succ
  apply depthOfItems_le
  intro v hv
  obtain ⟨a, -, rfl⟩ := List.mem_map.mp hv
  exact h a

theorem depthOfMembers_le {ms : Table Value} {n : Nat} (h : ∀ m ∈ ms, m.2.depth ≤ n) :
    depthOfMembers ms ≤ n := by
  induction ms with
  | nil => exact Nat.zero_le n
  | cons m rest ih =>
    obtain ⟨hm, hrest⟩ := List.forall_mem_cons.mp h
    exact Nat.max_le.mpr ⟨hm, ih hrest⟩

end Value

/-! ### What is shown of a value -/

/-- A fault of a text that is nested too deep. -/
def TooDeep {α : Type} (x : Except Fault α) : Prop := ∃ f, x = .error f ∧ f.cause = .tooDeep

/-- What the scanner shows of a value inside so many open containers: the value if it fits below
the limit, and otherwise something that is too deep to be read. -/
structure Shows (depth : Nat) (v : Value) (o : Outline) : Prop where
  fits : v.depth + depth < Scan.depthLimit → o = v.outline
  tooDeep : Scan.depthLimit ≤ v.depth + depth → TooDeep o.read

/-- The items of a list, each as it is shown. -/
def ShowsItems (depth : Nat) : List Value → List Outline → Prop := List.Forall₂ (Shows depth)

/-- The members of an object, each under its key. -/
def ShowsMembers (depth : Nat) :
    List (String × Value) → List (Except Fault String × Outline) → Prop :=
  List.Forall₂ fun m o => o.1 = .ok m.1 ∧ Shows depth m.2 o.2

namespace Outline

mutual

/-- A value that was shown can be read. -/
theorem exists_read_outline : ∀ v : Value, ∃ w, v.outline.read = .ok w
  | .null => ⟨_, rfl⟩
  | .bool _ => ⟨_, rfl⟩
  | .number _ => ⟨_, rfl⟩
  | .string _ => ⟨_, rfl⟩
  | .array items => by
    obtain ⟨vs, hvs⟩ := exists_readItems_outlines items
    exact ⟨.array vs, by rw [Value.outline, read, hvs]; rfl⟩
  | .object members => by
    obtain ⟨ms, hms⟩ := exists_readMembers_outlineMembers members []
    exact ⟨.object ms, by rw [Value.outline, read, hms]; rfl⟩

theorem exists_readItems_outlines : ∀ vs : List Value,
    ∃ ws, readItems (Value.outlines vs) = .ok ws
  | [] => ⟨_, rfl⟩
  | v :: vs => by
    obtain ⟨w, hw⟩ := exists_read_outline v
    obtain ⟨ws, hws⟩ := exists_readItems_outlines vs
    exact ⟨w :: ws, by rw [Value.outlines, readItems, hw, ok_bind, hws]; rfl⟩

theorem exists_readMembers_outlineMembers : ∀ (ms : List (String × Value)) (sofar : Table Value),
    ∃ t, readMembers (Value.outlineMembers ms) sofar = .ok t
  | [], sofar => ⟨sofar, rfl⟩
  | (k, v) :: ms, sofar => by
    obtain ⟨w, hw⟩ := exists_read_outline v
    obtain ⟨t, ht⟩ := exists_readMembers_outlineMembers ms (sofar.insert k w)
    exact ⟨t, by rw [Value.outlineMembers, readMembers, ok_bind, hw, ok_bind, ht]⟩

end

end Outline

/-! ### Putting outlines together -/

theorem tooDeep_bind {α β : Type} {x : Except Fault α} (h : TooDeep x) (f : α → Except Fault β) :
    TooDeep (x >>= f) := by
  obtain ⟨e, rfl, he⟩ := h
  exact ⟨e, rfl, he⟩

section
variable {depth : Nat}

theorem ShowsItems.fits {vs : List Value} {os : List Outline} (h : ShowsItems depth vs os)
    (hfits : Value.depthOfItems vs + depth < Scan.depthLimit) : os = Value.outlines vs := by
  induction h with
  | nil => rfl
  | cons ho _ ih =>
    rw [Value.depthOfItems] at hfits
    rw [ho.fits (by omega), ih (by omega), Value.outlines]

/-- The first item that is too deep is what the list cannot be read for. -/
theorem ShowsItems.tooDeep {vs : List Value} {os : List Outline} (h : ShowsItems depth vs os)
    (hdepth : depth < Scan.depthLimit)
    (hdeep : Scan.depthLimit ≤ Value.depthOfItems vs + depth) : TooDeep (Outline.readItems os) := by
  induction h with
  | nil =>
    rw [Value.depthOfItems] at hdeep
    omega
  | @cons v o vs os ho _ ih =>
    rw [Value.depthOfItems] at hdeep
    rw [Outline.readItems]
    by_cases hv : Scan.depthLimit ≤ v.depth + depth
    · exact tooDeep_bind (ho.tooDeep hv) _
    · obtain ⟨w, hw⟩ := Outline.exists_read_outline v
      rw [ho.fits (by omega), hw, ok_bind]
      exact tooDeep_bind (ih (by omega)) _

theorem ShowsMembers.fits {ms : List (String × Value)} {os : List (Except Fault String × Outline)}
    (h : ShowsMembers depth ms os) (hfits : Value.depthOfMembers ms + depth < Scan.depthLimit) :
    os = Value.outlineMembers ms := by
  induction h with
  | nil => rfl
  | @cons m o ms os ho _ ih =>
    rw [Value.depthOfMembers] at hfits
    rw [ih (by omega), Value.outlineMembers, ← ho.1, ← ho.2.fits (by omega)]

theorem ShowsMembers.tooDeep {ms : List (String × Value)}
    {os : List (Except Fault String × Outline)} (h : ShowsMembers depth ms os)
    (hdepth : depth < Scan.depthLimit)
    (hdeep : Scan.depthLimit ≤ Value.depthOfMembers ms + depth) (sofar : Table Value) :
    TooDeep (Outline.readMembers os sofar) := by
  induction h generalizing sofar with
  | nil =>
    rw [Value.depthOfMembers] at hdeep
    omega
  | @cons m o ms os ho _ ih =>
    obtain ⟨key, o⟩ := o
    obtain ⟨rfl, ho⟩ := ho
    rw [Value.depthOfMembers] at hdeep
    rw [Outline.readMembers, ok_bind]
    by_cases hv : Scan.depthLimit ≤ m.2.depth + depth
    · exact tooDeep_bind (ho.tooDeep hv) _
    · obtain ⟨w, hw⟩ := Outline.exists_read_outline m.2
      obtain rfl : o = m.2.outline := ho.fits (by omega)
      rw [hw, ok_bind]
      exact ih (by omega) _

end

/-- A scalar does not open a container. -/
theorem shows_outline {depth : Nat} (hdepth : depth < Scan.depthLimit) {v : Value}
    (hv : v.depth = 0) : Shows depth v v.outline := by
  refine ⟨fun _ => rfl, ?_⟩
  intro h
  omega

section
variable {depth : Nat} (hdepth : depth < Scan.depthLimit) (opening : List Piece)
include hdepth

/-- A container that is one too many is refused, whatever is in it. -/
theorem shows_guardDepth {v : Value} {o : Outline} (hv : 0 < v.depth)
    (h : depth + 1 < Scan.depthLimit → Shows depth v o) :
    Shows depth v (Scan.guardDepth depth opening o) := by
  unfold Scan.guardDepth
  split
  · refine ⟨fun hfits => ?_, fun _ => ⟨_, rfl, rfl⟩⟩
    omega
  · exact h (by omega)

theorem shows_array {vs : List Value} {os : List Outline}
    (h : depth + 1 < Scan.depthLimit → ShowsItems (depth + 1) vs os) :
    Shows depth (.array vs) (Scan.guardDepth depth opening (.array os none)) := by
  refine shows_guardDepth hdepth opening (Nat.succ_pos _) fun hlimit =>
    ⟨fun hfits => ?_, fun hdeep => ?_⟩
  · rw [Value.depth] at hfits
    rw [(h hlimit).fits (by omega), Value.outline]
  · rw [Value.depth] at hdeep
    rw [Outline.read]
    exact tooDeep_bind ((h hlimit).tooDeep hlimit (by omega)) _

theorem shows_object {ms : List (String × Value)} {os : List (Except Fault String × Outline)}
    (h : depth + 1 < Scan.depthLimit → ShowsMembers (depth + 1) ms os) :
    Shows depth (.object ms) (Scan.guardDepth depth opening (.object os none)) := by
  refine shows_guardDepth hdepth opening (Nat.succ_pos _) fun hlimit =>
    ⟨fun hfits => ?_, fun hdeep => ?_⟩
  · rw [Value.depth] at hfits
    rw [(h hlimit).fits (by omega), Value.outline]
  · rw [Value.depth] at hdeep
    rw [Outline.read]
    exact tooDeep_bind ((h hlimit).tooDeep hlimit (by omega) []) _

end

end TokenSheets.Json
