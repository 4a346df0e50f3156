import EventScript.Proofs.Labels
import EventScript.Proofs.PreambleLines

/-!
# Listings assembled again

The listing of a unit assembles to a unit with the same header fields, strings, variables and attributes,
whose code is the normal form of the code that was listed (`runs_listing`). The listings of several units
assemble to several units, whose code lies one after another (`assemble_listings`).
-/

namespace EventScript

open Assembly

/-- The statements of a unit. -/
def ScriptUnit.body (catalog : Catalog) (u : ScriptUnit) : List Code.Statement :=
  match (u.statements catalog).result with
  | .ok body => body
  | .error _ => []

/-- What a unit with the statements `body` must be for its listing to give it back. -/
structure ScriptUnit.Restorable (catalog : Catalog) (u : ScriptUnit) (body : List Code.Statement) : Prop where
  statements : (u.statements catalog).result = .ok body
  size : Code.blockSize body = u.code.length
  block : Code.Restorable (u.names catalog) body
  vars : u.vars.length ≤ Source.maxInteger
  attributes : u.attributes.length = attributeCount
  small : u.code.length ≤ 65535

/-- What the listing of a unit with the statements `body` assembles to, after other code. -/
def ScriptUnit.restored (catalog : Catalog) (u : ScriptUnit) (body : List Code.Statement) (offset : Nat) :
    ScriptUnit where
  header := {
    name := u.header.name
    instances := u.header.instances
    scriptLength := UInt32.ofNat u.code.length
    scriptOffset := UInt32.ofNat offset
    entry := u.header.entry
    kind := u.header.kind }
  strings := u.strings
  vars := u.vars
  code := Code.encodeBlock id (Code.normalBlock (u.names catalog) body)
  attributes := u.attributes

/-- The mark of a label at the end of the code. -/
def ScriptUnit.endMark (u : ScriptUnit) (body : List Code.Statement) : List Code.Statement :=
  if (u.endLabel? body).isSome then [.mark (UInt32.ofNat u.code.length)] else []

/-- The statements and labels that the listing of a unit shows. -/
def ScriptUnit.listedBody (catalog : Catalog) (u : ScriptUnit) (body : List Code.Statement) :
    List Code.Statement :=
  Code.markedBlock (u.labels body) 0 (Code.normalBlock (u.names catalog) body) ++ u.endMark body

variable {catalog : Catalog} {u : ScriptUnit} {body : List Code.Statement}

/-- Statements are what the code is decoded to, if each label is the address of one or the end. -/
theorem statements_eq_ok : (u.statements catalog).result = .ok body ↔
    (Code.decode u.strings.length u.code).result = .ok body ∧
      ∀ l ∈ u.labels body, l.toNat ∈ Code.blockStarts 0 body ∨ l.toNat = u.code.length := by
  have check : ∀ body, u.checkLabels body = .ok () ↔
      ∀ l ∈ u.labels body, l.toNat ∈ Code.blockStarts 0 body ∨ l.toNat = u.code.length := by
    intro body
    rw [ScriptUnit.checkLabels]
    cases found : (u.labels body).find? fun l =>
        !((Code.blockStarts 0 body).contains l.toNat || l.toNat == u.code.length) with
    | none => simpa [Decidable.or_iff_not_imp_left] using found
    | some l =>
      have stray := List.find?_some found
      have mem := List.mem_of_find?_eq_some found
      constructor
      · rintro ⟨⟩
      · intro h
        have := h l mem
        simp_all
  rw [ScriptUnit.statements, Traced.result_bind_eq_ok]
  constructor
  · rintro ⟨body', decoded, rest⟩
    obtain ⟨_, labels, same⟩ := Traced.result_bind_eq_ok.mp rest
    cases same
    exact ⟨mapError_eq_ok.mp decoded, (check _).mp labels⟩
  · rintro ⟨decoded, labels⟩
    exact ⟨body, mapError_eq_ok.mpr decoded,
      Traced.result_bind_eq_ok.mpr ⟨(), (check body).mpr labels, rfl⟩⟩

theorem endLabel?_isSome : (u.endLabel? body).isSome = true ↔
    (∃ l ∈ u.labels body, l.toNat = u.code.length) ∧ u.code.length ∉ Code.blockStarts 0 body := by
  have found : ((u.labels body).any fun l => l.toNat == u.code.length) = true ↔
      ∃ l ∈ u.labels body, l.toNat = u.code.length := by simp
  rw [ScriptUnit.endLabel?, ← found]
  split
  · next h => simpa using h
  · next h => simpa using h

theorem toList_endLabel? (shown : (u.endLabel? body).isSome = true) :
    (u.endLabel? body).toList = [Code.margin 1 ++ "#" ++ Text.decimal u.code.length ++ ":"] := by
  rw [ScriptUnit.endLabel?] at shown ⊢
  split at shown
  · next cond =>
    rw [if_pos cond]
    rfl
  · cases shown

/-- The marks of a listing are its labels, each at the address that it names. -/
theorem mem_marks_listedBody (h : u.Restorable catalog body) {p : UInt32 × Nat} :
    p ∈ Code.blockMarks 0 (u.listedBody catalog body) ↔ p.1.toNat = p.2 ∧ p.1 ∈ u.labels body := by
  obtain ⟨-, labels⟩ := statements_eq_ok.mp h.statements
  rw [ScriptUnit.listedBody, Code.blockMarks_append, List.mem_append, Code.mem_marks_markedBlock,
    Code.blockStarts_normal, Code.blockSize_marked, Code.blockSize_normal, h.size, Nat.zero_add,
    ScriptUnit.endMark]
  constructor
  · rintro (⟨-, marked⟩ | atEnd)
    · exact marked
    · split at atEnd
      · next shown =>
        obtain ⟨⟨l, mem, same⟩, -⟩ := endLabel?_isSome.mp shown
        rw [← same, UInt32.ofNat_toNat] at atEnd
        rw [List.mem_singleton.mp atEnd]
        exact ⟨rfl, mem⟩
      · cases atEnd
  · obtain ⟨l, a⟩ := p
    rintro ⟨same, mem⟩
    obtain rfl : l.toNat = a := same
    by_cases start : l.toNat ∈ Code.blockStarts 0 body
    · exact .inl ⟨start, rfl, mem⟩
    · have last : l.toNat = u.code.length := (labels l mem).resolve_left start
      rw [if_pos (endLabel?_isSome.mpr ⟨⟨l, mem, last⟩, last ▸ start⟩), ← last, UInt32.ofNat_toNat]
      exact .inr (List.mem_singleton_self _)

theorem address?_listedBody (h : u.Restorable catalog body) {l : UInt32} (mem : l ∈ u.labels body) :
    address? (Code.blockMarks 0 (u.listedBody catalog body)) l = some l.toNat :=
  Code.address?_of_marked (fun _ hp => ((mem_marks_listedBody h).mp hp).1)
    ⟨l.toNat, (mem_marks_listedBody h).mpr ⟨rfl, mem⟩⟩

theorem toNat_le_of_mem_labels (h : u.Restorable catalog body) {l : UInt32} (mem : l ∈ u.labels body) :
    l.toNat ≤ u.code.length := by
  obtain ⟨-, labels⟩ := statements_eq_ok.mp h.statements
  rcases labels l mem with start | last
  · have := Code.blockStarts_bound body 0 start
    rw [h.size] at this
    omega
  · exact Nat.le_of_eq last

theorem blockTargets_listedBody : Code.blockTargets (u.listedBody catalog body) = Code.blockTargets body := by
  rw [ScriptUnit.listedBody, Code.blockTargets_append, Code.blockTargets_marked, Code.blockTargets_normal,
    ScriptUnit.endMark]
  split <;> exact List.append_nil _

theorem mem_labels_of_target {l : UInt32} (mem : l ∈ Code.blockTargets body) : l ∈ u.labels body :=
  Code.mem_ascending.mpr (List.mem_append_left _ mem)

/-- In a listing, the address of a label is the label, and it is small enough to be written. -/
theorem encodeBlock_listedBody (h : u.Restorable catalog body) :
    Code.encodeBlock (lowAddress (Code.blockMarks 0 (u.listedBody catalog body))) (u.listedBody catalog body) =
      Code.encodeBlock id (Code.normalBlock (u.names catalog) body) := by
  have same : Code.encodeBlock id (u.listedBody catalog body) =
      Code.encodeBlock id (Code.normalBlock (u.names catalog) body) := by
    rw [ScriptUnit.listedBody, Code.encodeBlock_append, Code.encodeBlock_markedBlock, ScriptUnit.endMark]
    split <;> exact List.append_nil _
  rw [← same]
  refine Code.encodeBlock_congr _ fun l hl => ?_
  rw [blockTargets_listedBody] at hl
  have mem : l ∈ u.labels body := mem_labels_of_target hl
  have bound := toNat_le_of_mem_labels h mem
  have small := h.small
  rw [lowAddress, address?_listedBody h mem, Option.getD_some, Nat.mod_eq_of_lt (by omega),
    UInt32.ofNat_toNat]
  rfl

theorem checkLabels_eq_ok {map name : String} {marks : List (UInt32 × Nat)} {ls : List UInt32} :
    (checkLabels map name marks ls).result = .ok () ↔ ∀ l ∈ ls, (address? marks l).isSome = true := by
  induction ls with
  | nil => simp [checkLabels]
  | cons l ls ih =>
    rw [checkLabels, Traced.result_bind_eq_ok, List.forall_mem_cons, ← ih, checkLabel]
    cases address? marks l <;> simp

theorem mem_labels_of_entry (h : u.header.entry ≠ 0) : u.header.entry ∈ u.labels body := by
  refine Code.mem_ascending.mpr (List.mem_append_right _ ?_)
  rw [Code.targetOf, if_neg h]
  exact List.mem_singleton_self _

/-- The listed statements make up a unit with the header fields that the preamble sets. -/
theorem unitOf_listedBody (h : u.Restorable catalog body) (map : String) :
    (unitOf map u.header.name (listedPreamble u) u.strings (u.listedBody catalog body)).result =
      .ok (u.restored catalog body 0) := by
  have length : (Code.encodeBlock id (Code.normalBlock (u.names catalog) body)).length = u.code.length := by
    rw [Code.length_encodeBlock, Code.blockSize_normal, h.size]
  refine Traced.result_bind_eq_ok.mpr ⟨(), checkLabels_eq_ok.mpr ?_, ?_⟩
  · intro l hl
    rw [Code.mem_ascending, List.mem_append, blockTargets_listedBody] at hl
    have mem : l ∈ u.labels body := by
      rcases hl with target | marked
      · exact mem_labels_of_target target
      · obtain ⟨p, hp, rfl⟩ := List.mem_map.mp marked
        exact ((mem_marks_listedBody h).mp hp).2
    rw [address?_listedBody h mem]
    rfl
  have entry : entryOf map u.header.name (Code.blockMarks 0 (u.listedBody catalog body))
      (listedPreamble u) = .ok u.header.entry := by
    rw [entryOf, listedPreamble]
    by_cases zero : u.header.entry = 0
    · simp [zero]
    · simp only [if_neg zero, address?_listedBody h (mem_labels_of_entry zero), UInt32.ofNat_toNat]
  refine Traced.result_bind_eq_ok.mpr ⟨_, entry, Traced.result_bind_eq_ok.mpr ⟨(), rfl, ?_⟩⟩
  simp only [encodeBlock_listedBody h, length]
  rfl

/-! ### Listings -/

/-- The lines of a listing, once the statements are known. -/
theorem listing_eq_ok {lines : List String} : (u.listing catalog).result = .ok lines ↔
    ∃ body, (u.statements catalog).result = .ok body ∧
      lines = u.preamble catalog ++ [Text.leftBrace] ++
        Code.blockLines (u.names catalog) (u.labels body) 1 0 body ++ (u.endLabel? body).toList ++
        [Text.rightBrace] := by
  rw [ScriptUnit.listing, Traced.result_bind_eq_ok]
  constructor
  · rintro ⟨body, statements, ⟨⟩⟩
    exact ⟨body, statements, rfl⟩
  · rintro ⟨body, statements, rfl⟩
    exact ⟨body, statements, rfl⟩

theorem runs_bodyStart (map : String) (s : State) (name : String) (p : Preamble) :
    Runs catalog map [Text.leftBrace] { s with phase := .preamble name p }
      { s with phase := .body name p { strings := p.strings } } := by
  have prepared : Source.prepared catalog Text.leftBrace.toList = .ok (some ['{']) := prepared_leftBrace 0
  refine runs_line prepared fun n k => ⟨n, ?_⟩
  simp only [State.step, State.prepare]
  rw [if_pos trivial]
  rfl

/-- The line of a label at the end marks it. -/
theorem bodyRuns_endLabel (small : u.code.length ≤ 65535) {b : Body}
    (old : ∀ l ∈ b.marked, l.toNat < u.code.length) :
    ∃ b', BodyRuns catalog (u.endLabel? body).toList b b' ∧ Code.Extends b b' (u.endMark body) := by
  rw [ScriptUnit.endMark]
  by_cases shown : (u.endLabel? body).isSome = true
  · have same : (UInt32.ofNat u.code.length).toNat = u.code.length := by
      rw [UInt32.toNat_ofNat', Nat.mod_eq_of_lt (by omega)]
    have new : UInt32.ofNat u.code.length ∉ b.marked := by
      intro mem
      have := old _ mem
      omega
    have run : BodyRuns catalog [Code.margin 1 ++ "#" ++ Text.decimal (UInt32.ofNat u.code.length).toNat ++ ":"]
        b _ := Code.bodyRuns_label new 1
    rw [same] at run
    rw [if_pos shown, toList_endLabel? shown]
    exact ⟨_, run, Code.extends_statement b.strings_settle b.frames_settle b.pending_settle rfl⟩
  · have none_ : u.endLabel? body = none := by simpa using shown
    rw [if_neg shown, none_]
    exact ⟨b, bodyRuns_nil b, .refl b⟩

/-- The last brace of a unit adds the unit. -/
theorem runs_unitEnd {map name : String} {s : State} {p : Preamble} {b : Body} {v : ScriptUnit}
    (frames : b.frames = []) (unit : (unitOf map name p b.strings b.settle.done.reverse).result = .ok v)
    (room : s.offset + v.header.scriptLength.toNat ≤ 4294967295) :
    Runs catalog map [Text.rightBrace] { s with phase := .body name p b }
      { s with
        units := s.units ++ [{ v with header := { v.header with scriptOffset := UInt32.ofNat s.offset } }]
        offset := s.offset + v.header.scriptLength.toNat
        phase := .idle } := by
  have prepared : Source.prepared catalog Text.rightBrace.toList = .ok (some ['}']) := prepared_rightBrace 0
  refine runs_line prepared fun n k => ⟨n, ?_⟩
  have closed : b.settle.closeBlock? = none := Body.closeBlock?_eq_none.mpr (b.frames_settle.trans frames)
  simp only [State.step, State.continueBody]
  rw [if_neg (by decide), if_pos trivial, closed]
  refine Traced.result_bind_eq_ok.mpr ⟨v, ?_, ?_⟩
  · rwa [Body.strings_settle]
  · show State.addUnit map _ v = _
    simp only [State.addUnit]
    rw [if_pos room]

/-- The listing of a unit takes assembly to the restored unit. -/
theorem runs_listing (sound : catalog.Sound) (clean : catalog.Clean) (h : u.Restorable catalog body)
    {lines : List String} (listed : (u.listing catalog).result = .ok lines) (map : String) (s : State)
    (room : s.offset + u.code.length ≤ 4294967295) :
    Runs catalog map lines { s with phase := .idle }
      { s with
        units := s.units ++ [u.restored catalog body s.offset]
        offset := s.offset + u.code.length
        phase := .idle } := by
  obtain ⟨body', statements, rfl⟩ := listing_eq_ok.mp listed
  obtain rfl : body' = body := by
    rw [h.statements] at statements
    cases statements
    rfl
  have preamble := runs_preamble sound clean u h.vars h.attributes map s
  have start := preamble.append (runs_bodyStart map s u.header.name (listedPreamble u))
  have short : Code.blockSize body' ≤ 4294967295 := by
    have small := h.small
    rw [h.size]
    omega
  obtain ⟨b₁, run₁, extended₁, bound₁⟩ := Code.runs_blockLines sound clean (u.labels body') h.block short 1 0
    (b := { strings := (listedPreamble u).strings }) rfl (by simp)
  rw [Nat.zero_add, h.size] at bound₁
  obtain ⟨b₂, run₂, extended₂⟩ := bodyRuns_endLabel h.small bound₁
  have extended := extended₁.trans extended₂
  have length : (UInt32.ofNat u.code.length).toNat = u.code.length := by
    have small := h.small
    rw [UInt32.toNat_ofNat', Nat.mod_eq_of_lt (by omega)]
  have unit : (unitOf map u.header.name (listedPreamble u) b₂.strings b₂.settle.done.reverse).result =
      .ok (u.restored catalog body' 0) := by
    have done : b₂.settle.done.reverse = u.listedBody catalog body' := by
      rw [extended.done, List.reverse_append, List.reverse_reverse]
      rfl
    rw [done, extended.strings]
    exact unitOf_listedBody h map
  have fits : s.offset + (u.restored catalog body' 0).header.scriptLength.toNat ≤ 4294967295 := by
    rw [ScriptUnit.restored, length]
    exact room
  have all := ((start.append (run₁ map s _ _)).append (run₂ map s _ _)).append
    (runs_unitEnd extended.frames unit fits)
  simp only [ScriptUnit.restored, length] at all ⊢
  exact all

/-! ### Several units -/

theorem body_of_statements (h : (u.statements catalog).result = .ok body) : u.body catalog = body := by
  rw [ScriptUnit.body, h]

/-- Units with listings have statements. -/
theorem statements_of_listings : ∀ {us : List ScriptUnit} {text : List String},
    (ScriptUnit.listings catalog us).result = .ok text →
      ∀ u ∈ us, (u.statements catalog).result = .ok (u.body catalog)
  | [], _, _ => by rintro u ⟨⟩
  | [u], _, listed => by
    obtain ⟨body, statements, -⟩ := listing_eq_ok.mp listed
    rw [List.forall_mem_singleton, body_of_statements statements]
    exact statements
  | u :: v :: us, _, listed => by
    obtain ⟨_, here, rest⟩ := Traced.result_bind_eq_ok.mp listed
    obtain ⟨_, there, -⟩ := Traced.result_bind_eq_ok.mp rest
    obtain ⟨body, statements, -⟩ := listing_eq_ok.mp here
    refine List.forall_mem_cons.mpr ⟨?_, statements_of_listings there⟩
    rw [body_of_statements statements]
    exact statements

/-- What the listings of units assemble to, after other code. -/
def restoredUnits (catalog : Catalog) : Nat → List ScriptUnit → List ScriptUnit
  | _, [] => []
  | offset, u :: us =>
    u.restored catalog (u.body catalog) offset :: restoredUnits catalog (offset + u.code.length) us

/-- The length of the code of units. -/
def codeLength (us : List ScriptUnit) : Nat := sumBy (fun u => u.code.length) us

theorem codeLength_cons (u : ScriptUnit) (us : List ScriptUnit) :
    codeLength (u :: us) = u.code.length + codeLength us := rfl

/-- The listings of units take assembly to the restored units, one after another. -/
theorem runs_listings (sound : catalog.Sound) (clean : catalog.Clean) (map : String) :
    ∀ (us : List ScriptUnit), (∀ u ∈ us, u.Restorable catalog (u.body catalog)) →
    ∀ {lines : List String}, (ScriptUnit.listings catalog us).result = .ok lines →
    ∀ s : State, s.offset + codeLength us ≤ 4294967295 →
      Runs catalog map lines { s with phase := .idle }
        { s with
          units := s.units ++ restoredUnits catalog s.offset us
          offset := s.offset + codeLength us
          phase := .idle }
  | [], _, _, listed, s, _ => by
    cases listed
    rw [restoredUnits, List.append_nil]
    exact runs_nil _
  | [u], h, _, listed, s, room => by
    have single : codeLength [u] = u.code.length := by
      rw [codeLength_cons]
      rfl
    rw [single] at room ⊢
    exact runs_listing sound clean (h u (List.mem_singleton_self u)) listed map s room
  | u :: v :: us, h, lines, listed, s, room => by
    obtain ⟨first, here, rest⟩ := Traced.result_bind_eq_ok.mp listed
    obtain ⟨others, there, same⟩ := Traced.result_bind_eq_ok.mp rest
    cases same
    obtain ⟨hu, hs⟩ := List.forall_mem_cons.mp h
    rw [codeLength_cons] at room ⊢
    have one := runs_listing sound clean hu here map s (by omega)
    have more := runs_listings sound clean map (v :: us) hs there
      { s with
        units := s.units ++ [u.restored catalog (u.body catalog) s.offset]
        offset := s.offset + u.code.length } (by simp only; omega)
    have all := one.append ((runs_empty _).append more)
    simp only [List.append_assoc, List.cons_append, List.nil_append, Nat.add_assoc] at all
    rw [restoredUnits]
    exact all

/-- The listings of units that can be restored assemble to the restored units. -/
theorem assemble_listings (sound : catalog.Sound) (clean : catalog.Clean) {us : List ScriptUnit}
    (h : ∀ u ∈ us, u.Restorable catalog (u.body catalog)) {lines : List String}
    (listed : (ScriptUnit.listings catalog us).result = .ok lines) (room : codeLength us ≤ 4294967295)
    (map : String) : (assemble catalog map lines).result = .ok (restoredUnits catalog 0 us) := by
  have fits : ({} : State).offset + codeLength us ≤ 4294967295 := by
    show 0 + codeLength us ≤ _
    omega
  obtain ⟨ls, k, prepared, run⟩ := runs_listings sound clean map us h listed {} fits 1 0
  refine Traced.result_bind_eq_ok.mpr ⟨ls, mapError_eq_ok.mpr prepared, ?_⟩
  exact Traced.result_bind_eq_ok.mpr ⟨_, run, rfl⟩

end EventScript
