import EventScript.Proofs.Outline
import EventScript.Proofs.Resolving

/-!
# Units that assembly makes

Every unit that assembly makes has a body whose statements and guards came out of lines of the text
(`assemble_made`): bytes can hold them and the text has words for them. The unit has as many variables as a
line can ask for, all attributes, and code that follows that of the units before.
-/

namespace EventScript

namespace Source

theorem symbolStep_ne_int (c : Char) (cs : List Char) (value : Nat) (rest : Rest cs) :
    symbolStep c cs ≠ .ok (.int value, rest) := by
  unfold symbolStep
  split
  · rintro ⟨⟩
  · cases Symbol.withEqual? c with
    | none => cases Symbol.ofChar? c <;> simp
    | some s =>
      rcases cs with _ | ⟨d, cs⟩
      · cases Symbol.ofChar? c <;> simp
      · by_cases equal : d = '='
        · subst equal
          simp
        · cases Symbol.ofChar? c <;> simp [equal]

/-- A token holds no integer that is too large. -/
theorem step_int_le {c : Char} {cs : List Char} {t : Option Token} {rest : Rest cs}
    (h : step c cs = .ok (t, rest)) {value : Nat} (mem : .int value ∈ t) : value ≤ maxInteger := by
  unfold step at h
  split at h
  · cases h
    cases mem
  split at h
  · split at h
    · cases h
    · cases h
      cases mem
  split at h
  · simp only at h
    split at h
    · cases h
      cases mem
    · cases h
  split at h
  · simp only at h
    split at h
    · next n found =>
      cases h
      cases mem
      rw [Text.boundedNumeral?, Option.filter_eq_some_iff] at found
      simpa using found.2
    · cases h
  split at h
  · cases h
    cases mem
  · split at h
    · cases h
    · next t rest found =>
      cases h
      cases mem
      exact absurd found (symbolStep_ne_int c cs value rest)

theorem tokens_int_le {cs : List Char} : ∀ {ts : List Token}, tokens cs = .ok ts → ∀ {value : Nat},
    .int value ∈ ts → value ≤ maxInteger := by
  fun_induction tokens cs with
  | case1 =>
    intro ts h value mem
    cases h
    cases mem
  | case2 => rintro ts ⟨⟩
  | case3 => rintro ts ⟨⟩
  | case4 c cs t rest bound found ts' more ih =>
    rintro ts ⟨⟩ value mem
    rcases List.mem_append.mp mem with first | later
    · exact step_int_le found (Option.mem_toList.mp first)
    · exact ih more later

end Source

namespace Code

mutual

/-- Every statement without a block satisfies `A` and every guard `G`. -/
def Statement.All (A : Action → Prop) (G : Guard → Prop) : Statement → Prop
  | .action a => A a
  | .block guard body => G guard ∧ blockAll A G body
  | .mark _ => True

/-- Every statement without a block satisfies `A` and every guard `G`. -/
def blockAll (A : Action → Prop) (G : Guard → Prop) : List Statement → Prop
  | [] => True
  | s :: ss => s.All A G ∧ blockAll A G ss

end

variable {A A' : Action → Prop} {G G' : Guard → Prop}

theorem blockAll_iff {ss : List Statement} : blockAll A G ss ↔ ∀ s ∈ ss, s.All A G := by
  induction ss with
  | nil => simp [blockAll]
  | cons s ss ih => rw [blockAll, ih, List.forall_mem_cons]

mutual

theorem Statement.All.imp (action : ∀ a, A a → A' a) (guard : ∀ g, G g → G' g) :
    ∀ {s : Statement}, s.All A G → s.All A' G'
  | .action _, h => action _ h
  | .block _ _, h => ⟨guard _ h.1, blockAll_imp action guard h.2⟩
  | .mark _, _ => trivial

theorem blockAll_imp (action : ∀ a, A a → A' a) (guard : ∀ g, G g → G' g) :
    ∀ {ss : List Statement}, blockAll A G ss → blockAll A' G' ss
  | [], _ => trivial
  | _ :: _, h => ⟨Statement.All.imp action guard h.1, blockAll_imp action guard h.2⟩

end

end Code

namespace Assembly

open Code

/-! ### Preambles -/

/-- What holds of a preamble whatever the lines say. -/
structure Preamble.Sound (p : Preamble) : Prop where
  vars : p.vars.length ≤ Source.maxInteger
  attributes : p.attributes.length = attributeCount

theorem sound_initial : ({} : Preamble).Sound := ⟨Nat.zero_le _, List.length_replicate⟩

theorem readInteger_le {ts rest : List Source.Token} {count : Int}
    (small : ∀ {value : Nat}, .int value ∈ ts → value ≤ Source.maxInteger)
    (h : Source.readInteger ts = .ok (count, rest)) : count.toNat ≤ Source.maxInteger := by
  unfold Source.readInteger at h
  split at h
  · cases h
    omega
  · cases h
    exact small (List.mem_cons_self ..)
  · cases h

theorem initial_length {count : Nat} {values vars : List Int32}
    (h : Preamble.initial count values = .ok vars) : vars.length = count := by
  rw [Preamble.initial] at h
  split at h
  · cases h
    rw [List.length_append, List.length_replicate]
    omega
  · cases h

theorem setVariables_sound {p p' : Preamble} {ts rest : List Source.Token} (sound : p.Sound)
    (small : ∀ {value : Nat}, .int value ∈ ts → value ≤ Source.maxInteger)
    (h : p.setVariables ts = .ok (p', rest)) : p'.Sound := by
  obtain ⟨ts₁, paren, h₁⟩ := bind_eq_ok.mp h
  obtain ⟨⟨count, ts₂⟩, integer, h₂⟩ := bind_eq_ok.mp h₁
  obtain rfl := Source.readSymbol_eq paren
  have bound := readInteger_le (fun mem => small (List.mem_cons_of_mem _ mem)) integer
  simp only at h₂
  split at h₂
  · cases h₂
  · obtain ⟨ts₃, -, h₃⟩ := bind_eq_ok.mp h₂
    split at h₃
    · obtain ⟨values, -, h₄⟩ := bind_eq_ok.mp h₃
      obtain ⟨vars, initial, last⟩ := bind_eq_ok.mp h₄
      cases last
      exact ⟨by rw [initial_length initial]; exact bound, sound.attributes⟩
    · obtain ⟨vars, initial, last⟩ := bind_eq_ok.mp h₃
      cases last
      exact ⟨by rw [initial_length initial]; exact bound, sound.attributes⟩

theorem set_sound {catalog : Catalog} {p p' : Preamble} {key : String} {ts rest : List Source.Token}
    (sound : p.Sound) (small : ∀ {value : Nat}, .int value ∈ ts → value ≤ Source.maxInteger)
    (h : p.set catalog key ts = .ok (p', rest)) : p'.Sound := by
  unfold Preamble.set at h
  split at h
  · obtain ⟨_, -, h₁⟩ := bind_eq_ok.mp h
    obtain ⟨_, -, h₂⟩ := bind_eq_ok.mp h₁
    obtain ⟨_, -, last⟩ := bind_eq_ok.mp h₂
    cases last
    exact ⟨sound.vars, sound.attributes⟩
  split at h
  · obtain ⟨_, -, h₁⟩ := bind_eq_ok.mp h
    obtain ⟨_, -, h₂⟩ := bind_eq_ok.mp h₁
    obtain ⟨_, -, last⟩ := bind_eq_ok.mp h₂
    cases last
    exact ⟨sound.vars, sound.attributes⟩
  split at h
  · obtain ⟨ts₁, -, h₁⟩ := bind_eq_ok.mp h
    unfold Preamble.setEntry at h₁
    split at h₁
    · cases h₁
      exact ⟨sound.vars, sound.attributes⟩
    · obtain ⟨_, -, last⟩ := bind_eq_ok.mp h₁
      cases last
      exact ⟨sound.vars, sound.attributes⟩
    · cases h₁
  split at h
  · obtain ⟨_, -, h₁⟩ := bind_eq_ok.mp h
    obtain ⟨_, -, last⟩ := bind_eq_ok.mp h₁
    cases last
    exact ⟨sound.vars, sound.attributes⟩
  split at h
  · exact setVariables_sound sound small h
  · obtain ⟨index, -, h₁⟩ := bind_eq_ok.mp h
    obtain ⟨_, -, h₂⟩ := bind_eq_ok.mp h₁
    obtain ⟨_, -, h₃⟩ := bind_eq_ok.mp h₂
    obtain ⟨_, -, last⟩ := bind_eq_ok.mp h₃
    cases last
    exact ⟨sound.vars, by rw [List.length_set, sound.attributes]⟩

theorem read_sound {catalog : Catalog} {p p' : Preamble} {text : List Char} (sound : p.Sound)
    (h : p.read catalog text = .ok p') : p'.Sound := by
  obtain ⟨ts, tokens, h₁⟩ := bind_eq_ok.mp h
  split at h₁
  · next key ts =>
    obtain ⟨⟨p'', rest⟩, set, h₂⟩ := bind_eq_ok.mp h₁
    obtain ⟨_, -, last⟩ := bind_eq_ok.mp h₂
    cases last
    exact set_sound sound (fun mem => Source.tokens_int_le tokens (List.mem_cons_of_mem _ mem)) set
  · cases h₁

/-! ### Bodies -/

/-- Every statement of a body, complete or not, satisfies `A`, and every guard `G`. -/
structure Body.Holds (A : Action → Prop) (G : Guard → Prop) (b : Body) : Prop where
  done : ∀ s ∈ b.done, s.All A G
  frames : ∀ f ∈ b.frames, G f.guard ∧ ∀ s ∈ f.before, s.All A G
  pending : ∀ g ∈ b.pending, G g

section

variable {A A' : Action → Prop} {G G' : Guard → Prop} {b b' : Body}

theorem Body.Holds.imp (h : b.Holds A G) (action : ∀ a, A a → A' a) (guard : ∀ g, G g → G' g) :
    b.Holds A' G' :=
  ⟨fun s hs => (h.done s hs).imp action guard,
    fun f hf => ⟨guard _ (h.frames f hf).1, fun s hs => ((h.frames f hf).2 s hs).imp action guard⟩,
    fun g hg => guard g (h.pending g hg)⟩

theorem Body.Holds.settle (h : b.Holds A G) : b.settle.Holds A G := by
  rw [Body.settle]
  split
  · next guard pending =>
    refine ⟨List.forall_mem_cons.mpr ⟨⟨h.pending guard pending, trivial⟩, h.done⟩, h.frames, ?_⟩
    rintro g ⟨⟩
  · exact h

theorem Body.Holds.openBlock (h : b.Holds A G) {guard : Guard} (pending : b.pending = some guard) :
    (b.openBlock guard).Holds A G := by
  refine ⟨by rintro s ⟨⟩, List.forall_mem_cons.mpr ⟨⟨h.pending guard pending, h.done⟩, h.frames⟩, ?_⟩
  rintro g ⟨⟩

theorem Body.Holds.closeBlock (h : b.Holds A G) (closed : b.closeBlock? = some (.ok b')) : b'.Holds A G := by
  obtain ⟨f, fs, frames, -, rfl⟩ := Body.closeBlock?_eq_ok.mp closed
  have all := List.forall_mem_cons.mp (frames ▸ h.frames)
  refine ⟨List.forall_mem_cons.mpr ⟨⟨all.1.1, ?_⟩, all.1.2⟩, all.2, h.pending⟩
  exact blockAll_iff.mpr fun s hs => h.done s (List.mem_reverse.mp hs)

theorem Body.Holds.add (h : b.Holds A G) {piece : Piece} (added : b.add piece = .ok b')
    (guard : ∀ g, piece = .guard g → G g) (statement : ∀ s, piece = .statement s → s.All A G) :
    b'.Holds A G ∧ b'.strings = b.strings := by
  cases Body.add_cases added with
  | guard g =>
    refine ⟨⟨h.done, h.frames, ?_⟩, rfl⟩
    rintro g' ⟨⟩
    exact guard g rfl
  | mark _ => exact ⟨⟨List.forall_mem_cons.mpr ⟨trivial, h.done⟩, h.frames, h.pending⟩, rfl⟩
  | statement _ => exact ⟨⟨List.forall_mem_cons.mpr ⟨statement _ rfl, h.done⟩, h.frames, h.pending⟩, rfl⟩

end

/-! ### Units -/

variable (catalog : Catalog) (P : String → Prop)

/-- The statement came out of a text, in a unit with so many strings. -/
def MadeAction (count : Nat) (a : Action) : Prop :=
  ∀ strings, Resolved catalog P (a.Holdable count) a.Textual (a.parts ⟨catalog, strings⟩)

/-- The guard came out of a text, in a unit with so many strings. -/
def MadeGuard (count : Nat) (g : Guard) : Prop :=
  ∀ strings, Resolved catalog P (g.Fits count) g.Textual (g.parts ⟨catalog, strings⟩)

/-- The unit has a body that came out of lines with an outline. -/
def MadeFrom (map : String) (es : List Source.BodyLine) (u : ScriptUnit) : Prop :=
  ∃ (name : String) (p : Preamble) (body : List Statement), p.Sound ∧
    blockAll (MadeAction catalog P u.strings.length) (MadeGuard catalog P u.strings.length) body ∧
    (unitOf map name p u.strings body).result = .ok { u with header := { u.header with scriptOffset := 0 } } ∧
    blockOutline body = Source.unbraced es ∧ (Source.labelsOf (blockOutline body)).Nodup

/-- The body came out of lines with an outline. -/
structure Body.Made (es : List Source.BodyLine) (b : Body) : Prop where
  holds : b.Holds (MadeAction catalog P b.strings.length) (MadeGuard catalog P b.strings.length)
  outline : b.outline = Source.unbraced es
  marked : ∀ l ∈ Source.labelsOf b.outline, l ∈ b.marked
  nodup : (Source.labelsOf b.outline).Nodup

/-- The current unit came out of the lines that were read. -/
def Phase.Made (k : Source.Sketch) : Phase → Prop
  | .idle => k.current = none
  | .preamble _ p => p.Sound ∧ k.current = none
  | .body _ p b => p.Sound ∧ ∃ es, k.current = some (es, b.frames.length) ∧ b.Made catalog P es

/-- Each unit has its code after that of the units before it. -/
def Chained : Nat → List ScriptUnit → Prop
  | _, [] => True
  | offset, u :: us =>
    u.header.scriptOffset = UInt32.ofNat offset ∧ Chained (offset + u.header.scriptLength.toNat) us

/-- The units and the current unit came out of the lines that were read. -/
structure State.Made (map : String) (k : Source.Sketch) (s : State) : Prop where
  phase : s.phase.Made catalog P k
  count : k.finished.length = s.units.length
  units : ∀ (i : Nat) es u, k.finished[i]? = some es → s.units[i]? = some u → MadeFrom catalog P map es u
  chained : Chained 0 s.units
  offset : s.offset = sumBy (fun u => u.header.scriptLength.toNat) s.units
  room : s.offset ≤ 4294967295

variable {catalog P}

theorem chained_append {us : List ScriptUnit} {u : ScriptUnit} : ∀ {offset : Nat}, Chained offset us →
    u.header.scriptOffset = UInt32.ofNat (offset + sumBy (fun u => u.header.scriptLength.toNat) us) →
    Chained offset (us ++ [u]) := by
  induction us with
  | nil => exact fun _ h => ⟨h, trivial⟩
  | cons v us ih =>
    intro offset h last
    refine ⟨h.1, ih h.2 ?_⟩
    rwa [Nat.add_assoc]

theorem MadeAction.mono {m n : Nat} (le : m ≤ n) {a : Action} (h : MadeAction catalog P m a) :
    MadeAction catalog P n a :=
  fun strings => ⟨(h strings).fits.mono le, (h strings).textual, (h strings).settled⟩

theorem MadeGuard.mono {m n : Nat} (le : m ≤ n) {g : Guard} (h : MadeGuard catalog P m g) :
    MadeGuard catalog P n g :=
  fun strings => ⟨(h strings).fits.mono le, (h strings).textual, (h strings).settled⟩

theorem Body.Made.settle {es : List Source.BodyLine} {b : Body} (h : b.Made catalog P es) :
    b.settle.Made catalog P es := by
  refine ⟨?_, by rw [outline_settle, h.outline], ?_, by rw [outline_settle]; exact h.nodup⟩
  · rw [Body.strings_settle]
    exact h.holds.settle
  · rw [outline_settle, Body.marked_settle]
    exact h.marked

theorem unbraced_brace (es : List Source.BodyLine) : Source.unbraced (es ++ [.brace]) = Source.unbraced es := by
  rw [Source.unbraced_append]
  exact List.append_nil _

theorem Body.Made.openBlock {es : List Source.BodyLine} {b : Body} {guard : Guard} (h : b.Made catalog P es)
    (pending : b.pending = some guard) : (b.openBlock guard).Made catalog P (es ++ [.brace]) := by
  refine ⟨h.holds.openBlock pending, ?_, ?_, ?_⟩
  · rw [outline_openBlock pending, unbraced_brace, h.outline]
  · rw [outline_openBlock pending]
    exact h.marked
  · rw [outline_openBlock pending]
    exact h.nodup

theorem Body.Made.closeBlock {es : List Source.BodyLine} {b b' : Body} (h : b.Made catalog P es)
    (closed : b.settle.closeBlock? = some (.ok b')) : b'.Made catalog P (es ++ [.brace]) := by
  have settled := h.settle
  have outline := outline_closeBlock b.pending_settle closed
  have same : b'.strings = b.settle.strings ∧ b'.marked = b.settle.marked := by
    obtain ⟨f, fs, -, -, rfl⟩ := Body.closeBlock?_eq_ok.mp closed
    exact ⟨rfl, rfl⟩
  refine ⟨?_, ?_, ?_, ?_⟩
  · rw [same.1]
    exact settled.holds.closeBlock closed
  · rw [outline, unbraced_brace, settled.outline]
  · rw [outline, same.2]
    exact settled.marked
  · rw [outline]
    exact settled.nodup

/-- Only a label is marked, and only if it is new. -/
theorem marked_add {b b' : Body} {piece : Piece} (simple : ∀ g body, piece ≠ .statement (.block g body))
    (added : b.add piece = .ok b') :
    (b'.marked = b.marked ∧ Source.labelsOf [piece.entry] = []) ∨
      ∃ l, l ∉ b.marked ∧ b'.marked = l :: b.marked ∧ Source.labelsOf [piece.entry] = [l] := by
  cases Body.add_cases added with
  | guard g => exact .inl ⟨rfl, rfl⟩
  | @mark l new => exact .inr ⟨l, new, rfl, rfl⟩
  | @statement s other =>
    cases s with
    | action a => exact .inl ⟨rfl, rfl⟩
    | block g body => exact absurd rfl (simple g body)
    | mark l => exact absurd rfl (other l)

/-- Labels that are marked and distinct stay so with the label that is marked next. -/
theorem labels_append {labels new marked marked' : List UInt32}
    (marks : (marked' = marked ∧ new = []) ∨ ∃ l, l ∉ marked ∧ marked' = l :: marked ∧ new = [l])
    (old : ∀ l ∈ labels, l ∈ marked) (nodup : labels.Nodup) :
    (∀ l ∈ labels ++ new, l ∈ marked') ∧ (labels ++ new).Nodup := by
  rcases marks with ⟨rfl, rfl⟩ | ⟨l, fresh, rfl, rfl⟩
  · rw [List.append_nil]
    exact ⟨old, nodup⟩
  · refine ⟨List.forall_mem_append.mpr ⟨fun l' mem => List.mem_cons_of_mem _ (old l' mem), ?_⟩, ?_⟩
    · exact List.forall_mem_singleton.mpr (List.mem_cons_self ..)
    · refine List.nodup_append.mpr ⟨nodup, by simp, ?_⟩
      rintro l' mem _ last rfl
      rw [List.mem_singleton.mp last] at mem
      exact fresh (old l mem)

/-- A line adds its entry. -/
theorem Body.Made.add {es : List Source.BodyLine} {b b' : Body} (h : b.Made catalog P es)
    {ts : List Source.Token} (called : ∀ name ∈ Source.callNames ts, P name) {piece : Piece}
    {strings : List String} (read : Yields (readPiece catalog ts) b.strings piece strings)
    (added : ({ b.settle with strings := strings }.add piece) = .ok b') :
    b'.Made catalog P (es ++ [Source.BodyLine.ofTokens ts]) := by
  have settled := h.settle
  have spec : ∀ strings', b.strings <+: strings ∧ piece.Resolved ⟨catalog, strings'⟩ P strings.length :=
    fun strings' => readPiece_spec called read
  have more : b.settle.strings.length ≤ strings.length := by
    rw [Body.strings_settle]
    exact (spec []).1.length_le
  obtain ⟨entry, simple⟩ := readPiece_entry read
  have outline := outline_add (b := { b.settle with strings := strings }) b.pending_settle simple added
  have before : ({ b.settle with strings := strings } : Body).outline = b.settle.outline := rfl
  rw [before, ← entry] at outline
  have brace : Source.unbraced [Source.BodyLine.ofTokens ts] = [Source.BodyLine.ofTokens ts] := by
    rw [entry]
    exact List.filter_eq_self.mpr (List.forall_mem_singleton.mpr (decide_eq_true piece.entry_ne_brace))
  have holds : ({ b.settle with strings := strings } : Body).Holds (MadeAction catalog P strings.length)
      (MadeGuard catalog P strings.length) := by
    have grown := settled.holds.imp (fun a => MadeAction.mono more) (fun g => MadeGuard.mono more)
    exact ⟨grown.done, grown.frames, grown.pending⟩
  obtain ⟨all, same⟩ := holds.add added
    (fun g e strings' => by have := (spec strings').2; rwa [e] at this)
    (fun s e => by
      cases s with
      | action a => exact fun strings' => by have := (spec strings').2; rwa [e] at this
      | block g body => exact absurd e (simple g body)
      | mark l => trivial)
  have marks := marked_add simple added
  rw [← entry, Body.marked_settle] at marks
  have old : ∀ l ∈ Source.labelsOf b.settle.outline, l ∈ b.marked := by
    rw [outline_settle]
    exact h.marked
  have labels := labels_append marks old settled.nodup
  rw [← Source.labelsOf_append, ← outline] at labels
  refine ⟨by rw [same]; exact all, ?_, labels.1, labels.2⟩
  rw [outline, settled.outline, Source.unbraced_append, brace]

theorem tokens_leftBrace : Source.tokens ['{'] = .ok [.sym .leftBrace] := tokens_single .leftBrace

theorem tokens_rightBrace : Source.tokens ['}'] = .ok [.sym .rightBrace] := tokens_single .rightBrace

section

variable {map : String} {k : Source.Sketch} {s : State} {name : String} {p : Preamble} {b : Body}

theorem State.Made.preamble (h : s.Made catalog P map k) (phase : s.phase = .preamble name p) :
    p.Sound ∧ k.current = none := by
  have now := h.phase
  rwa [phase] at now

theorem State.Made.body (h : s.Made catalog P map k) (phase : s.phase = .body name p b) :
    p.Sound ∧ ∃ es, k.current = some (es, b.frames.length) ∧ b.Made catalog P es := by
  have now := h.phase
  rwa [phase] at now

/-- A line inside of a unit keeps the units before it. -/
theorem State.Made.go (h : s.Made catalog P map k) {phase : Phase} {line : Nat}
    (current : Option (List Source.BodyLine × Nat)) (made : phase.Made catalog P { k with current := current }) :
    ({ s with line := line, phase := phase } : State).Made catalog P map { k with current := current } :=
  ⟨made, h.count, h.units, h.chained, h.offset, h.room⟩

theorem frames_add {b b' : Body} {piece : Piece} (added : b.add piece = .ok b') : b'.frames = b.frames := by
  cases Body.add_cases added <;> rfl

theorem frames_closeBlock {b b' : Body} (closed : b.closeBlock? = some (.ok b')) :
    b.frames.length = b'.frames.length + 1 := by
  obtain ⟨f, fs, frames, -, rfl⟩ := Body.closeBlock?_eq_ok.mp closed
  rw [frames]
  rfl

/-- A complete body makes a unit. -/
theorem Body.Made.unit {es : List Source.BodyLine} (made : b.Made catalog P es) (sound : p.Sound)
    (frames : b.frames = []) {u : ScriptUnit}
    (unit : (unitOf map name p b.strings b.settle.done.reverse).result = .ok u) (offset : UInt32) :
    MadeFrom catalog P map es { u with header := { u.header with scriptOffset := offset } } := by
  have settled := made.settle
  have outline : blockOutline b.settle.done.reverse = b.settle.outline := by
    rw [Body.outline, Body.frames_settle, frames, Body.pending_settle]
    simp [framesOutline]
  have fields : u.strings = b.strings ∧ u.header.scriptOffset = 0 := by
    obtain ⟨_, _, h₁⟩ := Traced.result_bind_eq_ok.mp unit
    obtain ⟨_, _, h₂⟩ := Traced.result_bind_eq_ok.mp h₁
    obtain ⟨_, _, last⟩ := Traced.result_bind_eq_ok.mp h₂
    cases last
    exact ⟨rfl, rfl⟩
  have holds := settled.holds.done
  rw [Body.strings_settle, ← fields.1] at holds
  rw [← fields.1] at unit
  refine ⟨name, p, b.settle.done.reverse, sound, ?_, ?_, ?_, ?_⟩
  · exact blockAll_iff.mpr fun s hs => holds s (List.mem_reverse.mp hs)
  · rw [unit, ← fields.2]
  · rw [outline, settled.outline]
  · rw [outline]
    exact settled.nodup

/-- A unit that ends is one more unit, with its code after that of the others. -/
theorem State.Made.addUnit (h : s.Made catalog P map k) {es : List Source.BodyLine} {u : ScriptUnit} {line : Nat}
    (offset : u.header.scriptOffset = UInt32.ofNat s.offset) (made : MadeFrom catalog P map es u)
    (room : s.offset + u.header.scriptLength.toNat ≤ 4294967295) :
    ({ s with
      line := line
      units := s.units ++ [u]
      offset := s.offset + u.header.scriptLength.toNat
      phase := .idle } : State).Made catalog P map ⟨k.finished ++ [es], none⟩ := by
  refine ⟨rfl, ?_, ?_, chained_append h.chained ?_, ?_, room⟩
  · simp [h.count]
  · intro i es' u' found found'
    rcases Nat.lt_trichotomy i s.units.length with less | rfl | more
    · rw [List.getElem?_append_left (by rw [h.count]; exact less)] at found
      rw [List.getElem?_append_left less] at found'
      exact h.units i es' u' found found'
    · rw [← h.count, List.getElem?_concat_length] at found
      rw [List.getElem?_concat_length] at found'
      cases found
      cases found'
      exact made
    · rw [List.getElem?_eq_none (by simp only [List.length_append, List.length_singleton]; omega)] at found'
      cases found'
  · rw [Nat.zero_add, ← h.offset, offset]
  · rw [sumBy_append, ← h.offset]
    rfl

/-- A line keeps what holds of the state. -/
theorem State.Made.step {s' : State} {l : Source.Line} (h : s.Made catalog P map k)
    (called : ∀ name ∈ Source.callNames (Source.tokensOf l.text), P name)
    (step : Step catalog map s l s') : s'.Made catalog P map (k.step (Source.tokensOf l.text)) := by
  cases step with
  | begin idle tokens =>
    have current : k.current = none := by
      have now := h.phase
      rwa [idle] at now
    rw [Source.tokensOf_eq tokens, Source.Sketch.step_outside current (by rintro ⟨⟩)]
    exact h.go k.current ⟨sound_initial, current⟩
  | setting phase other read =>
    obtain ⟨sound, current⟩ := h.preamble phase
    have noBrace : Source.tokensOf l.text ≠ [.sym .leftBrace] := by
      intro brace
      obtain ⟨ts, tokens, rest⟩ := bind_eq_ok.mp read
      rw [Source.tokensOf_eq tokens] at brace
      rw [brace] at rest
      cases rest
    rw [Source.Sketch.step_outside current noBrace]
    exact h.go k.current ⟨read_sound sound read, current⟩
  | enter phase brace =>
    obtain ⟨sound, current⟩ := h.preamble phase
    rw [brace, Source.tokensOf_eq tokens_leftBrace, Source.Sketch.step_enter current]
    refine h.go _ ⟨sound, [], rfl, ?_⟩
    exact ⟨⟨by rintro s ⟨⟩, by rintro f ⟨⟩, by rintro g ⟨⟩⟩, rfl, by rintro l ⟨⟩, List.nodup_nil⟩
  | @openBlock name p b guard phase brace pending =>
    obtain ⟨sound, es, current, made⟩ := h.body phase
    rw [brace, Source.tokensOf_eq tokens_leftBrace, Source.Sketch.step_open current]
    exact h.go _ ⟨sound, _, rfl, made.openBlock pending⟩
  | @closeBlock name p b b' phase brace closed =>
    obtain ⟨sound, es, current, made⟩ := h.body phase
    have depth := frames_closeBlock closed
    rw [Body.frames_settle] at depth
    rw [depth] at current
    rw [brace, Source.tokensOf_eq tokens_rightBrace, Source.Sketch.step_close current]
    exact h.go _ ⟨sound, _, rfl, made.closeBlock closed⟩
  | leave phase brace frames unit room =>
    obtain ⟨sound, es, current, made⟩ := h.body phase
    rw [frames] at current
    rw [brace, Source.tokensOf_eq tokens_rightBrace, Source.Sketch.step_leave current]
    exact h.addUnit rfl (made.unit sound frames unit _) room
  | @piece name p b b' ts piece strings phase notLeft notRight tokens read add =>
    obtain ⟨sound, es, current, made⟩ := h.body phase
    have other : Source.BodyLine.ofTokens ts ≠ .brace := by
      rw [(readPiece_entry read).1]
      exact piece.entry_ne_brace
    have depth : b'.frames = b.frames := (frames_add add).trans b.frames_settle
    rw [← depth] at current
    rw [Source.tokensOf_eq tokens] at called ⊢
    rw [Source.Sketch.step_entry current other]
    exact h.go _ ⟨sound, _, rfl, made.add called read add⟩

/-- Assembly makes its units from the lines of the text. -/
theorem assemble_made {lines : List String} {us : List ScriptUnit} {ls : List Source.Line}
    (h : (assemble catalog map lines).result = .ok us) (prepared : Source.preparedFrom catalog 1 lines = .ok ls)
    (called : ∀ l ∈ ls, ∀ name ∈ Source.callNames (Source.tokensOf l.text), P name) :
    ∃ s : State, s.units = us ∧ s.Made catalog P map (Source.sketch (ls.map Source.Line.text)) := by
  have keeps := assemble_keeps (fun ls s =>
    (∀ l ∈ ls, ∀ name ∈ Source.callNames (Source.tokensOf l.text), P name) →
      s.Made catalog P map (Source.sketch (ls.map Source.Line.text)))
    (fun _ => ⟨rfl, rfl, by simp, trivial, rfl, Nat.zero_le _⟩) ?_ h
  · obtain ⟨ls', s, prepared', made, -, units⟩ := keeps
    rw [prepared] at prepared'
    cases prepared'
    exact ⟨s, units, made called⟩
  · intro ls s l s' inv step called
    obtain ⟨before, last⟩ := List.forall_mem_append.mp called
    rw [List.map_append, List.map_singleton, Source.sketch_append]
    exact (inv before).step (last l (List.mem_singleton_self l)) step

end

end Assembly

end EventScript
