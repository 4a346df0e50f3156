import EventScript.Proofs.Outline
import EventScript.Proofs.PreambleLines

/-!
# What the lines of a preamble set

`Setting` says what a line in front of a body can do, and `setting_of_read` that it does nothing else. In particular,
the entry is a label exactly if one of the lines says so, and then it is the last label that is given
(`entryLabel_of_settings`).
-/

namespace EventScript.Assembly

open Source (Line Token)

/-- What a line in front of a body can set. -/
inductive Setting (catalog : Catalog) (p : Preamble) : List Token → Preamble → Prop where
  | instances (value : UInt32) (ts : List Token) :
      Setting catalog p (.ident "instances" :: ts) { p with instances := value }
  | kind (value : UInt8) (ts : List Token) : Setting catalog p (.ident "kind" :: ts) { p with kind := value }
  | entry (address : UInt32) (value : Nat) :
      Setting catalog p [.ident "entry", .sym .equal, .int value] { p with entry := some address }
  | entryLabel (label : UInt32) :
      Setting catalog p [.ident "entry", .sym .equal, .label label] { p with entryLabel := some label }
  | strings (strings : List String) (ts : List Token) :
      Setting catalog p (.ident "strings" :: ts) { p with strings := p.strings ++ strings }
  | vars (values : List Int32) (ts : List Token) :
      Setting catalog p (.ident "variables" :: ts) { p with vars := values }
  | attr {key : String} {index : Nat} (other : key ∉ Catalog.preambleKeys)
      (resolved : catalog.resolve .attr key = .ok index) (value : UInt8) (ts : List Token) :
      Setting catalog p (.ident key :: ts) { p with attributes := p.attributes.set index value }

variable {catalog : Catalog} {p p' : Preamble}

theorem setting_of_setVariables {ts rest : List Token} (h : p.setVariables ts = .ok (p', rest)) :
    ∃ vars, p' = { p with vars := vars } := by
  obtain ⟨ts₁, -, h₁⟩ := bind_eq_ok.mp h
  obtain ⟨⟨count, ts₂⟩, -, h₂⟩ := bind_eq_ok.mp h₁
  simp only at h₂
  split at h₂
  · cases h₂
  · obtain ⟨ts₃, -, h₃⟩ := bind_eq_ok.mp h₂
    split at h₃
    · obtain ⟨values, -, h₄⟩ := bind_eq_ok.mp h₃
      obtain ⟨vars, -, last⟩ := bind_eq_ok.mp h₄
      cases last
      exact ⟨vars, rfl⟩
    · obtain ⟨vars, -, last⟩ := bind_eq_ok.mp h₃
      cases last
      exact ⟨vars, rfl⟩

theorem setting_of_set {key : String} {ts : List Token} (h : p.set catalog key ts = .ok (p', [])) :
    Setting catalog p (.ident key :: ts) p' := by
  unfold Preamble.set at h
  split at h
  · next name =>
    obtain ⟨_, -, h₁⟩ := bind_eq_ok.mp h
    obtain ⟨⟨_, _⟩, -, h₂⟩ := bind_eq_ok.mp h₁
    obtain ⟨instances, -, last⟩ := bind_eq_ok.mp h₂
    cases last
    subst name
    exact .instances instances ts
  split at h
  · next name =>
    obtain ⟨_, -, h₁⟩ := bind_eq_ok.mp h
    obtain ⟨⟨_, _⟩, -, h₂⟩ := bind_eq_ok.mp h₁
    obtain ⟨kind, -, last⟩ := bind_eq_ok.mp h₂
    cases last
    subst name
    exact .kind kind ts
  split at h
  · next name =>
    obtain ⟨ts₁, equal, h₁⟩ := bind_eq_ok.mp h
    obtain rfl := Source.readSymbol_eq equal
    subst name
    unfold Preamble.setEntry at h₁
    split at h₁
    · next label _ =>
      cases h₁
      exact .entryLabel label
    · next value _ =>
      obtain ⟨address, -, last⟩ := bind_eq_ok.mp h₁
      cases last
      exact .entry address value
    · cases h₁
  split at h
  · next name =>
    obtain ⟨_, -, h₁⟩ := bind_eq_ok.mp h
    obtain ⟨strings, -, last⟩ := bind_eq_ok.mp h₁
    cases last
    subst name
    exact .strings strings ts
  split at h
  · next name =>
    obtain ⟨vars, rfl⟩ := setting_of_setVariables h
    subst name
    exact .vars vars ts
  · next notInstances notKind notEntry notStrings notVariables =>
    obtain ⟨index, resolved, h₁⟩ := bind_eq_ok.mp h
    obtain ⟨_, -, h₂⟩ := bind_eq_ok.mp h₁
    obtain ⟨⟨_, _⟩, -, h₃⟩ := bind_eq_ok.mp h₂
    obtain ⟨value, -, last⟩ := bind_eq_ok.mp h₃
    cases last
    refine .attr ?_ resolved value ts
    simp [Catalog.preambleKeys, notInstances, notKind, notEntry, notStrings, notVariables]

/-- A line does one of the things that `Setting` lists. -/
theorem setting_of_read {text : List Char} (h : p.read catalog text = .ok p') :
    ∃ ts, Source.tokens text = .ok ts ∧ Setting catalog p ts p' := by
  obtain ⟨ts, tokens, h₁⟩ := bind_eq_ok.mp h
  split at h₁
  · next key ts =>
    obtain ⟨⟨p'', rest⟩, set, h₂⟩ := bind_eq_ok.mp h₁
    obtain ⟨_, ended, last⟩ := bind_eq_ok.mp h₂
    cases last
    obtain rfl := Source.readEnd_eq ended
    exact ⟨_, tokens, setting_of_set set⟩
  · cases h₁

/-! ### The entry -/

/-- The label that the tokens of a line `entry = #…` give. -/
def entryLabel? : List Token → Option UInt32
  | [.ident key, .sym .equal, .label label] => if key = "entry" then some label else none
  | _ => none

theorem entryLabel?_of_ne {key : String} (other : key ≠ "entry") (ts : List Token) :
    entryLabel? (.ident key :: ts) = none := by
  unfold entryLabel?
  split
  · next tokens =>
    cases tokens
    exact if_neg other
  · rfl

/-- A line gives the entry a label, or leaves what label it had. -/
theorem entryLabel_of_read {l : Line} (h : p.read catalog l.text = .ok p') :
    p'.entryLabel = (entryLabel? (Source.tokensOf l.text)).or p.entryLabel := by
  obtain ⟨ts, tokens, set⟩ := setting_of_read h
  rw [Source.tokensOf_eq tokens]
  cases set with
  | entryLabel label => rfl
  | entry address value => rfl
  | @attr key index other resolved value ts =>
    have notEntry : key ≠ "entry" := by
      rintro rfl
      exact other (by decide)
    rw [entryLabel?_of_ne notEntry]
    rfl
  | instances | kind | strings | vars =>
    rw [entryLabel?_of_ne (by decide)]
    rfl

/-- The entry is the last label that a line gives it. -/
theorem entryLabel_of_settings {ls : List Line}
    (h : ls.foldlM (fun (p : Preamble) l => p.read catalog l.text) p = .ok p') :
    p'.entryLabel = (ls.filterMap fun l => entryLabel? (Source.tokensOf l.text)).getLast?.or p.entryLabel := by
  induction ls generalizing p with
  | nil =>
    cases h
    rfl
  | cons l ls ih =>
    rw [List.foldlM_cons, bind_eq_ok] at h
    obtain ⟨p₁, read, rest⟩ := h
    rw [ih rest, entryLabel_of_read read, List.filterMap_cons]
    cases entryLabel? (Source.tokensOf l.text) with
    | none => rfl
    | some label =>
      rw [List.getLast?_cons]
      cases (ls.filterMap fun l => entryLabel? (Source.tokensOf l.text)).getLast? <;> rfl

end EventScript.Assembly
