import NitroRs.Lib.Cover
import NitroRs.Reader.InboxReader

/-! The search for the init message on L1, a window of blocks at a time. -/
namespace NitroRs.Genesis
open Cover

def isInit (m : DelayedInboxMessage) : Bool := m.message.header.kind == 11

/-- The last block of a window. -/
def windowEnd (start latest : UInt64) : UInt64 := min (saturatingAdd start 9999) latest

theorem windowEnd_bounds {start latest : UInt64} (inside : start ≤ latest) :
    start.toNat ≤ (windowEnd start latest).toNat ∧ (windowEnd start latest).toNat ≤ latest.toNat := by
  have order := UInt64.le_iff_toNat_le.mp inside
  have full := toNat_saturatingAdd start 9999
  have bound := start.toNat_lt
  have window : windowEnd start latest =
      if saturatingAdd start 9999 ≤ latest then saturatingAdd start 9999 else latest := rfl
  rw [window]
  split
  · rename_i short
    have low := UInt64.le_iff_toNat_le.mp short
    omega
  · exact ⟨order, le_rfl⟩

/-- The next window starts right after one that ends before the last block. -/
theorem nextStart {stop latest : UInt64} (short : stop.toNat ≤ latest.toNat) (last : stop ≠ latest) :
    (saturatingAdd stop 1).toNat = stop.toNat + 1 ∧ stop.toNat + 1 ≤ latest.toNat := by
  have before := lt_of_le_of_ne short fun same => last (UInt64.toNat_inj.mp same)
  have bound := latest.toNat_lt
  have one : (1 : UInt64).toNat = 1 := rfl
  rw [toNat_saturatingAdd, one]
  omega

/-- The window loop, from one of its starts. A message comes with the last block of its window. -/
def scanWindows [Monad μ] (lookup : Nat → Nat → μ (List DelayedInboxMessage)) (latest start : UInt64) :
    μ (Option (L1IncomingMessage × UInt64)) :=
  if start ≤ latest then do
    let stop := windowEnd start latest
    let msgs ← lookup start.toNat stop.toNat
    match msgs.find? isInit with
    | some found => return some (found.message, stop)
    | none =>
      if stop = latest then return none
      else scanWindows lookup latest (saturatingAdd stop 1)
  else return none
termination_by latest.toNat + 1 - start.toNat
decreasing_by
  rename_i inside last
  have bounds := windowEnd_bounds inside
  have next := nextStart bounds.2 last
  omega

theorem scanWindows_outside [Monad μ] (lookup : Nat → Nat → μ (List DelayedInboxMessage)) {latest start : UInt64}
    (outside : ¬ start ≤ latest) : scanWindows lookup latest start = pure none := by
  rw [scanWindows, if_neg outside]

theorem scanWindows_inside [Monad μ] (lookup : Nat → Nat → μ (List DelayedInboxMessage)) {latest start : UInt64}
    (inside : start ≤ latest) : scanWindows lookup latest start =
      lookup start.toNat (windowEnd start latest).toNat >>= fun msgs =>
        match msgs.find? isInit with
        | some found => pure (some (found.message, windowEnd start latest))
        | none =>
          if windowEnd start latest = latest then pure none
          else scanWindows lookup latest (saturatingAdd (windowEnd start latest) 1) := by
  rw [scanWindows, if_pos inside]

/-- Induction on the starts of the windows, from the last one down. -/
theorem scan_induction {motive : UInt64 → Prop} (latest : UInt64) (outside : ∀ start, ¬ start ≤ latest → motive start)
    (inside : ∀ start, start ≤ latest →
      (windowEnd start latest ≠ latest → motive (saturatingAdd (windowEnd start latest) 1)) → motive start)
    (start : UInt64) : motive start := by
  induction size : latest.toNat + 1 - start.toNat using Nat.strongRecOn generalizing start with
  | ind size ih =>
    subst size
    by_cases order : start ≤ latest
    · refine inside start order fun last => ih _ ?_ _ rfl
      have bounds := windowEnd_bounds order
      have next := nextStart bounds.2 last
      omega
    · exact outside start order

/-- The bridge, with a note of every window that it is asked for. -/
def noted (lookup : Nat → Nat → Except Error (List DelayedInboxMessage)) (lo hi : Nat) :
    StateT (List (Nat × Nat)) (Except Error) (List DelayedInboxMessage) := do
  modify (· ++ [(lo, hi)])
  lookup lo hi

/-- The outcome of a scan of the blocks from `lo` to `hi`, and the windows that it asked for. -/
structure Scanned (emitted : Nat → List DelayedInboxMessage) (lo hi : Nat)
    (found : Option (L1IncomingMessage × UInt64)) (windows : List (Nat × Nat)) (next : Nat) : Prop where
  covers : Covers lo windows next
  within : ∀ window ∈ windows, window.2 ≤ hi
  first : found.map Prod.fst = ((between emitted lo hi).find? isInit).map DelayedInboxMessage.message
  whole : found = none → hi < next
  last : ∀ message block, found = some (message, block) → ∃ start, windows.getLast? = some (start, block.toNat) ∧
    ((between emitted start block.toNat).find? isInit).map DelayedInboxMessage.message = some message

variable {emitted : Nat → List DelayedInboxMessage} {lookup : Nat → Nat → Except Error (List DelayedInboxMessage)}

theorem noted_bind (lookup : Nat → Nat → Except Error (List DelayedInboxMessage)) (lo hi : Nat)
    (k : List DelayedInboxMessage → StateT (List (Nat × Nat)) (Except Error) α) (windows : List (Nat × Nat)) :
    (noted lookup lo hi >>= k).run windows = lookup lo hi >>= fun msgs => (k msgs).run (windows ++ [(lo, hi)]) := by
  cases answer : lookup lo hi with
  | ok msgs =>
    simp only [noted, answer]
    rfl
  | error e =>
    simp only [noted, answer]
    rfl

/-- The notes change nothing. -/
theorem scanWindows_noted (lookup : Nat → Nat → Except Error (List DelayedInboxMessage)) (latest start : UInt64)
    (windows : List (Nat × Nat)) :
    Prod.fst <$> (scanWindows (noted lookup) latest start).run windows = scanWindows lookup latest start := by
  induction start using scan_induction latest generalizing windows with
  | outside start outside =>
    rw [scanWindows_outside _ outside, scanWindows_outside _ outside]
    rfl
  | inside start inside ih =>
    rw [scanWindows_inside _ inside, scanWindows_inside _ inside, noted_bind]
    cases lookup start.toNat (windowEnd start latest).toNat with
    | error e => rfl
    | ok msgs =>
      simp only [bind, Except.bind]
      cases msgs.find? isInit with
      | some found => rfl
      | none =>
        by_cases last : windowEnd start latest = latest
        · simp only [if_pos last]
          rfl
        · simp only [if_neg last]
          exact ih last _

namespace Scanned
variable {lo mid hi next : Nat} {found : Option (L1IncomingMessage × UInt64)} {windows : List (Nat × Nat)}

theorem outside (empty : hi < lo) : Scanned emitted lo hi none [] lo where
  covers := .nil
  within := fun _ member => nomatch member
  first := by rw [between_empty emitted empty]; rfl
  whole := fun _ => empty
  last := fun _ _ here => nomatch here

theorem here {m : DelayedInboxMessage} {block : UInt64} (start : lo ≤ block.toNat) (stop : block.toNat ≤ hi)
    (here : (between emitted lo block.toNat).find? isInit = some m) :
    Scanned emitted lo hi (some (m.message, block)) [(lo, block.toNat)] (block.toNat + 1) where
  covers := .cons start .nil
  within := fun window member => by rwa [List.mem_singleton.mp member]
  first := by
    rw [← between_append emitted start stop, List.find?_append, here]
    rfl
  whole := fun missing => nomatch missing
  last := fun message block' same => by
    cases same
    exact ⟨lo, rfl, by rw [here]; rfl⟩

theorem missing (inside : lo ≤ hi) (missing : (between emitted lo hi).find? isInit = none) :
    Scanned emitted lo hi none [(lo, hi)] (hi + 1) where
  covers := .cons inside .nil
  within := fun window member => by rw [List.mem_singleton.mp member]
  first := by rw [missing]; rfl
  whole := fun _ => Nat.lt_succ_self hi
  last := fun _ _ here => nomatch here

/-- A window without an init message, in front of a scan of what follows it. -/
theorem onward (start : lo ≤ mid) (stop : mid ≤ hi) (missing : (between emitted lo mid).find? isInit = none)
    (rest : Scanned emitted (mid + 1) hi found windows next) :
    Scanned emitted lo hi found ((lo, mid) :: windows) next where
  covers := .cons start rest.covers
  within := fun window member => by
    rcases List.mem_cons.mp member with rfl | later
    · exact stop
    · exact rest.within window later
  first := by
    rw [← between_append emitted start stop, List.find?_append, missing, Option.none_or]
    exact rest.first
  whole := rest.whole
  last := fun message block same => by
    obtain ⟨first, final, here⟩ := rest.last message block same
    exact ⟨first, by rw [List.getLast?_cons, final]; rfl, here⟩

theorem found_none_iff (scanned : Scanned emitted lo hi found windows next) :
    found = none ↔ ∀ m ∈ between emitted lo hi, m.message.header.kind ≠ 11 := by
  rw [← Option.map_eq_none_iff (f := Prod.fst), scanned.first, Option.map_eq_none_iff, List.find?_eq_none]
  simp only [isInit, beq_iff_eq]

end Scanned

/-- A window without an init message, in front of the last block. -/
theorem scanWindows_onward (answers : ∀ lo hi, lookup lo hi = .ok (between emitted lo hi)) {latest start : UInt64}
    (inside : start ≤ latest) (last : windowEnd start latest ≠ latest)
    (missing : (between emitted start.toNat (windowEnd start latest).toNat).find? isInit = none) {windows : List (Nat × Nat)} :
    (scanWindows (noted lookup) latest start).run windows =
      (scanWindows (noted lookup) latest (saturatingAdd (windowEnd start latest) 1)).run
        (windows ++ [(start.toNat, (windowEnd start latest).toNat)]) := by
  rw [scanWindows_inside _ inside, noted_bind, answers]
  simp only [bind, Except.bind, missing, if_neg last]

/-- One run of the loop, whatever was noted before. -/
theorem scanWindows_scanned (answers : ∀ lo hi, lookup lo hi = .ok (between emitted lo hi)) (latest start : UInt64)
    (windows : List (Nat × Nat)) : ∃ found asked next,
      (scanWindows (noted lookup) latest start).run windows = .ok (found, windows ++ asked) ∧
        Scanned emitted start.toNat latest.toNat found asked next := by
  induction start using scan_induction latest generalizing windows with
  | outside start outside =>
    rw [scanWindows_outside _ outside]
    have empty := not_le.mp fun order => outside (UInt64.le_iff_toNat_le.mpr order)
    exact ⟨none, [], _, by rw [List.append_nil]; rfl, .outside empty⟩
  | inside start inside ih =>
    have bounds := windowEnd_bounds inside
    cases here : (between emitted start.toNat (windowEnd start latest).toNat).find? isInit with
    | some m =>
      rw [scanWindows_inside _ inside, noted_bind, answers]
      simp only [bind, Except.bind, here]
      exact ⟨_, _, _, rfl, .here bounds.1 bounds.2 here⟩
    | none =>
      by_cases last : windowEnd start latest = latest
      · rw [scanWindows_inside _ inside, noted_bind, answers]
        simp only [bind, Except.bind, here, if_pos last]
        rw [last] at here bounds ⊢
        exact ⟨_, _, _, rfl, .missing bounds.1 here⟩
      · obtain ⟨found, asked, stop, run, scanned⟩ := ih last
          (windows ++ [(start.toNat, (windowEnd start latest).toNat)])
        rw [(nextStart bounds.2 last).1] at scanned
        refine ⟨found, _, stop, ?_, .onward bounds.1 bounds.2 here scanned⟩
        rw [scanWindows_onward answers inside last here, run, List.append_assoc]
        rfl

/-- The windows follow each other without a gap from the block of the deployment to the last
block or to the window with the first init message. -/
theorem init_scan_complete (bridge : DelayedBridge)
    (answers : ∀ lo hi, bridge.lookupMessagesInRange lo hi = .ok (between emitted lo hi)) (deployedAt latest : UInt64) :
    ∃ found windows next, scanWindows bridge.lookupMessagesInRange latest deployedAt = .ok found ∧
      (scanWindows (noted bridge.lookupMessagesInRange) latest deployedAt).run [] = .ok (found, windows) ∧
      Scanned emitted deployedAt.toNat latest.toNat found windows next ∧
      windows.Pairwise (fun v w => v.2 < w.1) ∧
      (∀ n, (∃ window ∈ windows, window.1 ≤ n ∧ n ≤ window.2) ↔ deployedAt.toNat ≤ n ∧ n < next) ∧
      (∀ message block, found = some (message, block) → next = block.toNat + 1) ∧
      (found = none ↔ ∀ m ∈ between emitted deployedAt.toNat latest.toNat, m.message.header.kind ≠ 11) := by
  obtain ⟨found, windows, next, run, scanned⟩ := scanWindows_scanned answers latest deployedAt []
  rw [List.nil_append] at run
  refine ⟨found, windows, next, ?_, run, scanned, scanned.covers.disjoint, scanned.covers.exists_iff, ?_,
    scanned.found_none_iff⟩
  · rw [← scanWindows_noted _ _ _ [], run]
    rfl
  · intro message block same
    obtain ⟨start, final, _⟩ := scanned.last message block same
    exact scanned.covers.next_eq final

section Samples

def messageOfKind (kind : UInt8) : DelayedInboxMessage := ⟨0, .zero, ⟨⟨kind, .zero, 0, 0, some .zero, 0⟩, [], none⟩⟩

/-- An L1 message and the init message, in the last block but one. -/
def lastEmitted (block : Nat) : List DelayedInboxMessage :=
  if block = 2 ^ 64 - 2 then [messageOfKind 3, messageOfKind 11] else []

def lastBridge : DelayedBridge where
  getMessageCount := fun _ => .ok 2
  getAccumulator := fun _ _ => .ok .zero
  lookupMessagesInRange := fun lo hi => .ok (between lastEmitted lo hi)

/-- A scan of three windows, up to the last block number there is. -/
theorem lastBridge_scanned : ∃ block windows,
    scanWindows lastBridge.lookupMessagesInRange (.ofNat (2 ^ 64 - 1)) (.ofNat (2 ^ 64 - 25000)) =
      .ok (some ((messageOfKind 11).message, block)) ∧
    (scanWindows (noted lastBridge.lookupMessagesInRange) (.ofNat (2 ^ 64 - 1)) (.ofNat (2 ^ 64 - 25000))).run [] =
      .ok (some ((messageOfKind 11).message, block),
        (2 ^ 64 - 25000, 2 ^ 64 - 15001) :: (2 ^ 64 - 15000, 2 ^ 64 - 5001) :: windows) := by
  have answers (lo hi : Nat) : lastBridge.lookupMessagesInRange lo hi = .ok (between lastEmitted lo hi) := rfl
  obtain ⟨found, windows, next, run, asked, scanned, _⟩ := init_scan_complete lastBridge answers
    (.ofNat (2 ^ 64 - 25000)) (.ofNat (2 ^ 64 - 1))
  have first : found.map Prod.fst = some (messageOfKind 11).message := scanned.first.trans (by decide +kernel)
  obtain ⟨⟨message, block⟩, rfl, rfl⟩ := Option.map_eq_some_iff.mp first
  have shape := asked
  rw [scanWindows_onward answers (by decide +kernel) (by decide +kernel) (by decide +kernel),
    scanWindows_onward answers (by decide +kernel) (by decide +kernel) (by decide +kernel)] at shape
  obtain ⟨found', later, next', again, _⟩ := scanWindows_scanned answers (.ofNat (2 ^ 64 - 1)) (.ofNat (2 ^ 64 - 5000))
    [(2 ^ 64 - 25000, 2 ^ 64 - 15001), (2 ^ 64 - 15000, 2 ^ 64 - 5001)]
  have same : (some ((messageOfKind 11).message, block), windows) = (found', [(2 ^ 64 - 25000, 2 ^ 64 - 15001),
      (2 ^ 64 - 15000, 2 ^ 64 - 5001)] ++ later) := Except.ok.inj (shape.symm.trans again)
  obtain ⟨_, rfl⟩ := Prod.mk.inj same
  exact ⟨block, later, run, asked⟩

end Samples
end NitroRs.Genesis
