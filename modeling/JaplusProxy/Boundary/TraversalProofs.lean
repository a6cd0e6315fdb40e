import JaplusProxy.Boundary.CommandProofs
import JaplusProxy.PathWalk
import JaplusProxy.Userinfo.Sanitize

/-! The two path checks look for a parent with a slash behind it. A parent that ends the
path has none, and only one of the checks looks at a parent that is the whole path. -/
namespace JaplusProxy.Boundary
open CString PathWalk

def components (s : Bytes) : List Bytes := s.splitOn (chr '/')

/-- No component leads up, and the walk stays under the starting directory. -/
structure Confined (s : Bytes) : Prop where
  down : lit ".." ∉ components s
  inside : (walk (lit "..") (lit ".") 0 (components s)).isSome

theorem confined_iff : Confined s ↔ lit ".." ∉ components s := by
  refine ⟨Confined.down, fun down => ⟨down, ?_⟩⟩
  obtain ⟨_, walked, _⟩ := walk_descends (lit ".") 0 down
  rw [walked]
  rfl

/-- What the search for `../` leaves of the places of a parent. -/
theorem confined_checked (searched : ¬ lit "../" <:+: s) : Confined s ↔ s ≠ lit ".." ∧ ¬ lit "/.." <:+ s := by
  have front : lit ".." ++ [chr '/'] = lit "../" := by decide
  have back : chr '/' :: lit ".." = lit "/.." := by decide
  rw [confined_iff, components, mem_splitOn_iff (by decide), back, front]
  constructor
  · exact fun none => ⟨fun whole => none (.inl whole), fun last => none (.inr (.inr (.inl last)))⟩
  · rintro ⟨whole, last⟩ (same | first | ended | between)
    · exact whole same
    · exact searched first.isInfix
    · exact last ended
    · exact searched ((List.suffix_append [chr '/'] (lit "../")).isInfix.trans between)

/-- A string that passes a check stays under its directory exactly when it does not end in
a parent. -/
theorem pathChecks_confine_iff (s : CStr) :
    (isMapChars s.bytes = true → (Confined s.bytes ↔ ¬ lit "/.." <:+ s.bytes)) ∧
      (isPathChars s.bytes = true → (Confined s.bytes ↔ s.bytes ≠ lit ".." ∧ ¬ lit "/.." <:+ s.bytes)) := by
  constructor
  · intro accepted
    obtain ⟨_, whole, searched⟩ := (isMapChars_iff s.nulFree).mp accepted
    rw [confined_checked searched]
    exact and_iff_right whole
  · intro accepted
    exact confined_checked (isPathChars_iff.mp accepted).2

theorem pathChecks_confine_ffa :
    (Confined (lit "mp/ffa3") ↔ ¬ lit "/.." <:+ lit "mp/ffa3") ∧
      (Confined (lit "mp/ffa3") ↔ lit "mp/ffa3" ≠ lit ".." ∧ ¬ lit "/.." <:+ lit "mp/ffa3") :=
  have checks := pathChecks_confine_iff ⟨lit "mp/ffa3", by decide⟩
  ⟨checks.1 (by decide), checks.2 (by decide)⟩

/-- A parent passes both checks, the ammap command and the saber keys. -/
theorem pathChecks_climb :
    (isMapChars (lit "./..") = true ∧ ¬ Confined (lit "./..")) ∧
      (isPathChars (lit "..") = true ∧ ¬ Confined (lit "..")) ∧
      Passes (Engine.executing [⟨lit "ammap", by decide⟩, ⟨lit "./..", by decide⟩]) 0 ∧
      Userinfo.sanitizeUserinfo (lit "\\saber1\\..") 2048 128 = ⟨0, lit "\\saber1\\..", none⟩ := by
  refine ⟨⟨by decide, fun confined => ?_⟩, ⟨by decide, fun confined => ?_⟩, ⟨_, rfl, by decide +kernel⟩,
    by decide +kernel⟩
  · exact absurd confined.inside (by decide)
  · exact absurd confined.inside (by decide)

end JaplusProxy.Boundary
