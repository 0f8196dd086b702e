import Mathlib
import Evolve.Stf.TraceRule

/-! Histories: blocks that run one after another, with a record of every part that runs code and of
the worlds before and after it.  Nothing is stored outside these parts, so a fact about histories
follows from what each part does. -/

namespace Evolve

open Machine Borsh Effects

/-- A part of a block that has run. -/
structure Moment (Tx Block : Type) where
  part : BlockPart Tx Block
  before : World
  result : SdkResult part.Ans
  after : World

abbrev Recorded (Tx Block : Type) := Logged (Moment Tx Block) World ErrorCode

/-- The world that the block after starts from: what the blocks so far have stored. -/
def World.commit (w : World) : World := ⟨.new w.storage.lookup, .infinite, []⟩

namespace Recorded

variable {Tx Block : Type} [Transaction Tx] (host : Host) (fuel : Nat) (stf : Stf Tx Block)

def part (part : BlockPart Tx Block) : Recorded Tx Block part.Ans :=
  Logged.observe (fun w r w' => [⟨part, w, r, w'⟩]) (part.run host fuel stf)

variable [BlockTrait Block Tx]

def applyBlock (block : Block) : Recorded Tx Block (BlockResult × List Tx) :=
  Parts.applyBlock (part host fuel stf) stf block

def applyBlocks : List Block → Recorded Tx Block Unit
  | [] => pure ()
  | block :: blocks => do
    let _ ← applyBlock host fuel stf block
    Logged.lift (Exec.modify World.commit)
    applyBlocks blocks

/-- A recorded block is the block with a record. -/
theorem exec_applyBlock (block : Block) :
    (applyBlock host fuel stf block).exec = stf.applyBlock host fuel block :=
  Parts.exec_applyBlock (fun _ => rfl) block

end Recorded

/-! ### What a record says -/

section

variable {Tx Block : Type} [Transaction Tx] (host : Host) (fuel : Nat) (stf : Stf Tx Block)

/-- What a part of a block did. -/
def Moment.trace (moment : Moment Tx Block) : List Action :=
  (moment.part.traced host fuel stf).log moment.before

/-- The parts have run one after another.  Nothing was stored before, between and after them. -/
def IsHistory : World → List (Moment Tx Block) → Option World → Prop
  | w, [], last => ∀ w' ∈ last, w.SameStore w'
  | w, moment :: moments, last =>
    w.SameStore moment.before ∧
      moment.part.run host fuel stf moment.before = .done (moment.result, moment.after) ∧
      IsHistory moment.after moments last

end

section

variable {Tx Block : Type} [Transaction Tx] {host : Host} {fuel : Nat} {stf : Stf Tx Block}

variable {moments : List (Moment Tx Block)}

theorem IsHistory.of_sameStore {w w₁ : World} {last : Option World} (hsame : w.SameStore w₁)
    (h : IsHistory host fuel stf w₁ moments last) : IsHistory host fuel stf w moments last := by
  cases moments with
  | nil => exact fun w' hw' => hsame.trans (h w' hw')
  | cons moment moments => exact ⟨hsame.trans h.1, h.2⟩

theorem IsHistory.ran {w : World} {last : Option World} (h : IsHistory host fuel stf w moments last)
    {moment : Moment Tx Block} (hmem : moment ∈ moments) :
    moment.part.run host fuel stf moment.before = .done (moment.result, moment.after) := by
  induction moments generalizing w with
  | nil => cases hmem
  | cons first moments ih =>
    rcases List.mem_cons.mp hmem with rfl | hmem
    · exact h.2.1
    · exact ih h.2.2 hmem

theorem IsHistory.drop {w : World} {later : List (Moment Tx Block)} {moment : Moment Tx Block}
    {last : Option World} (h : IsHistory host fuel stf w (moments ++ moment :: later) last) :
    IsHistory host fuel stf moment.after later last := by
  induction moments generalizing w with
  | nil => exact h.2.2
  | cons first moments ih => exact ih h.2.2

/-- What every part keeps, and what depends on the store only, is kept by a history. -/
theorem IsHistory.keeps {R : World → List Action → Option World → Prop} (rule : Logged.Composes R)
    (hsame : ∀ w w', w.SameStore w' → R w [] (some w'))
    (hparts : ∀ part : BlockPart Tx Block, Logged.Keeps R (part.traced host fuel stf))
    {w w' : World} (h : IsHistory host fuel stf w moments (some w')) :
    R w (moments.flatMap (Moment.trace host fuel stf)) (some w') := by
  induction moments generalizing w with
  | nil => exact hsame w w' (h w' rfl)
  | cons moment moments ih =>
    obtain ⟨hbefore, hruns, hrest⟩ := h
    rw [← BlockPart.exec_traced] at hruns
    have hpart := rule.trans (hsame _ _ hbefore) ((hparts _).done hruns)
    exact rule.trans hpart (ih hrest)

theorem isHistory_composes : Logged.Composes (IsHistory host fuel stf) where
  refl w := by
    rintro _ ⟨⟩
    exact .refl w
  trans a l b l' o h₁ h₂ := by
    induction l generalizing a with
    | nil => exact h₂.of_sameStore (h₁ b rfl)
    | cons moment l ih => exact ⟨h₁.1, h₁.2.1, ih _ h₁.2.2⟩

theorem isHistory_nil {w w' : World} (h : w.SameStore w') :
    IsHistory host fuel stf w [] (some w') := by
  rintro _ ⟨⟩
  exact h

theorem isHistory_part (part : BlockPart Tx Block) :
    Logged.Keeps (IsHistory host fuel stf) (Recorded.part host fuel stf part) := by
  intro w
  unfold Recorded.part Logged.observe Logged.last
  dsimp only
  rcases h : part.run host fuel stf w with ⟨⟨r, w'⟩⟩ | _ | _
  · exact ⟨.refl w, h, isHistory_nil (.refl w')⟩
  · rintro _ ⟨⟩
  · rintro _ ⟨⟩

theorem isHistory_silent {α : Type} {m : Run α} (hm : SilentOp m) :
    Logged.Keeps (IsHistory host fuel stf) (Logged.lift m) :=
  Logged.Keeps.lift (S := World.Silent) (fun _ _ h => isHistory_nil h.lookup) hm.keeps hm.halts

theorem isHistory_meter (gasCounter : GasCounter) :
    Logged.Keeps (IsHistory host fuel stf) (Logged.lift (Run.meter gasCounter)) :=
  fun _ => isHistory_nil rfl

theorem isHistory_commit :
    Logged.Keeps (IsHistory host fuel stf) (Logged.lift (Exec.modify World.commit : Run Unit)) := by
  intro w
  refine isHistory_nil ?_
  funext key
  simp [World.commit, ExecutionState.lookup, ExecutionState.new]

variable [BlockTrait Block Tx]

theorem isHistory_applyBlock (block : Block) :
    Logged.Keeps (IsHistory host fuel stf) (Recorded.applyBlock host fuel stf block) :=
  Parts.keeps_applyBlock isHistory_composes isHistory_part isHistory_meter
    (fun response => isHistory_silent (.txResult response)) (isHistory_silent .popEvents) stf block

theorem isHistory_applyBlocks (blocks : List Block) :
    Logged.Keeps (IsHistory host fuel stf) (Recorded.applyBlocks host fuel stf blocks) := by
  have rule : Logged.Composes (IsHistory host fuel stf) := isHistory_composes
  induction blocks with
  | nil => exact rule.keeps_pure ()
  | cons block blocks ih =>
    refine rule.keeps_bind (isHistory_applyBlock block) fun _ => ?_
    exact rule.keeps_bind isHistory_commit fun _ => ih

end

end Evolve
