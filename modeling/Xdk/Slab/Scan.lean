import Xdk.Slab.Exclusive

/-! # When a span has no block to give

`span_next_free` gives a word up when its compare-and-swap fails, and it does not look again
at the words it has passed.  So it can come back empty-handed although there were free blocks
all the time.  What it saw is true at its end only when none of its own compare-and-swaps
has failed and nobody has cleared a bit meanwhile.
-/

namespace Xdk.Slab

open Xdk.Lib

/-! ## The bits of the blocks -/

/-- The bitmap has a bit for every block.  Only a span that loses more blocks to the alignment
    of its first block than it has is laid out otherwise. -/
def Config.BitForEveryBlock (config : Config) : Prop :=
  ∀ unalignedData h, layout config unalignedData = some h → h.numBlocks ≤ bitsPerMword * h.words

theorem growBitmap_words {numBlocks bitmapSizeBytes : Nat}
    (whole : bitmapSizeBytes % bytesPerMword = 0) :
    growBitmap numBlocks bitmapSizeBytes % bytesPerMword = 0 := by
  rw [growBitmap]
  split
  · rw [Nat.add_mod_right, whole]
  · exact whole

/-- The bitmap has whole words. -/
theorem bestFit_words (config : Config) (numBlocks bitmapSizeBytes : Nat)
    (whole : bitmapSizeBytes % bytesPerMword = 0) :
    (bestFit config numBlocks bitmapSizeBytes).2 % bytesPerMword = 0 := by
  fun_induction bestFit config numBlocks bitmapSizeBytes with
  | case1 numBlocks bitmapSizeBytes room tooLong => exact growBitmap_words whole
  | case2 numBlocks bitmapSizeBytes room fits ih =>
    exact ih (growBitmap_words whole)
  | case3 numBlocks bitmapSizeBytes full => exact whole

theorem alignFirst_eq {alignment : Nat} (pos : 0 < alignment) (a : Nat) :
    alignFirst alignment a = a + (alignment - a % alignment) % alignment := by
  fun_induction alignFirst alignment a with
  | case1 a unaligned ih =>
    have nearer := sub_mod_succ unaligned.1 unaligned.2
    omega
  | case2 a aligned =>
    have aligned : a % alignment = 0 := by
      by_contra unaligned
      exact aligned ⟨pos, unaligned⟩
    rw [aligned, Nat.sub_zero, Nat.mod_self, Nat.add_zero]

/-- An alignment that is not larger than a block loses no block. -/
theorem bitForEveryBlock_of_le {config : Config} (small : config.baseAlignment ≤ config.elemSize) :
    config.BitForEveryBlock := by
  intro unalignedData h laidOut
  obtain ⟨exponent, _, power⟩ := config.alignment
  have pos : 0 < config.baseAlignment := by
    rw [power]
    exact Nat.two_pow_pos exponent
  obtain ⟨_, bitmap, enough, tmp, first, blocks⟩ := layout_spec laidOut
  have whole := bestFit_words config 0 bytesPerMword rfl
  rw [← bitmap] at whole
  have none : (h.firstBlockAddr - tmp) / config.elemSize = 0 := by
    have distance := Nat.mod_lt (config.baseAlignment - tmp % config.baseAlignment) pos
    rw [first, alignFirst_eq pos, Nat.add_sub_cancel_left]
    exact Nat.div_eq_of_lt (Nat.lt_of_lt_of_le distance small)
  have few : h.numBlocks ≤ (bestFit config 0 bytesPerMword).1 - 1 := by
    rw [blocks, none, wrapSub, Nat.sub_zero, Nat.add_mod_right]
    exact Nat.mod_le _ _
  simp only [Header.words, bitsPerMword, bytesPerMword] at enough whole few ⊢
  omega

/-! ## What a step changes -/

def SpanEvent.actor {Thread : Type*} : SpanEvent Thread → Thread
  | .spanNextFree actor | .spanFree actor _ | .malloc actor _ | .thread actor => actor

namespace Span

variable {Thread : Type*}

def Full (s : Span Thread) : Prop :=
  ∃ h, s.header = some h ∧ ∀ block < h.numBlocks, bit s.bitmap block = true

instance (s : Span Thread) : Decidable s.Full :=
  match found : s.header with
  | none => isFalse (by rw [Full, found]; rintro ⟨h, header, _⟩; cases header)
  | some h => decidable_of_iff (∀ block < h.numBlocks, bit s.bitmap block = true) (by
      simp [Full, found])

def Undisturbed (thread : Thread) (s : Span Thread) : SpanEvent Thread → Prop
  | .thread other =>
    match s.threads other with
    | .casWord w current => other = thread → s.bitmap w = current
    | .freeCas _ slot _ current => s.bitmap (slot / bitsPerMword) ≠ current
    | _ => True
  | .spanNextFree _ | .spanFree _ _ | .malloc _ _ => True

instance [DecidableEq Thread] (thread : Thread) (s : Span Thread) (event : SpanEvent Thread) :
    Decidable (s.Undisturbed thread event) :=
  match event with
  | .thread other =>
    match pc : s.threads other with
    | .casWord w current =>
      decidable_of_iff (other = thread → s.bitmap w = current) (by simp only [Undisturbed, pc])
    | .freeCas _ slot _ current =>
      decidable_of_iff (s.bitmap (slot / bitsPerMword) ≠ current) (by simp only [Undisturbed, pc])
    | .idle | .loadInitialized | .initTest | .initCas | .initBody | .initStore | .wait
    | .loadWord _ | .returned _ | .freeTest _ | .freeAssert _ _ _ | .freeLoad _ _ _ | .freed _ =>
      isTrue (by simp only [Undisturbed, pc])
  | .spanNextFree _ | .spanFree _ _ | .malloc _ _ => isTrue trivial

/-- What an access of a thread does to the others: the bitmap changes by a compare-and-swap
    that succeeds. -/
structure Effect (s : Span Thread) (thread : Thread) (s' : Span Thread) : Prop where
  others : ∀ other ≠ thread, s'.threads other = s.threads other
  header : s'.header = s.header
  bitmap : s'.bitmap = s.bitmap ∨
    (∃ w current, s.threads thread = .casWord w current ∧ s.bitmap w = current ∧
      s'.bitmap = Function.update s.bitmap w (setIn current (lowestZero current))) ∨
    ∃ ptr slot retries current, s.threads thread = .freeCas ptr slot retries current ∧
      s.bitmap (slot / bitsPerMword) = current

variable [DecidableEq Thread] {config : Config} {s s' : Span Thread} {thread : Thread}

theorem effect_setPc (pc : Pc) : Effect s thread (s.setPc thread pc) :=
  ⟨fun _ ne => threads_setPc_of_ne s pc ne, rfl, .inl rfl⟩

variable {h : Header}

theorem takeBlock_effect {w : Nat} {cur : BitVec 64} (pc : s.threads thread = .casWord w cur)
    (step : s.takeBlock config thread h w cur = some s') : Effect s thread s' := by
  simp only [takeBlock] at step
  split at step
  · rename_i same
    split_ifs at step
    cases step
    exact { effect_setPc (.returned _) with bitmap := .inr (.inl ⟨w, cur, pc, same, rfl⟩) }
  · cases step
    exact effect_setPc _

theorem findSlot_effect {ptr : Nat} (step : s.findSlot config thread h ptr = some s') :
    Effect s thread s' := by
  simp only [findSlot] at step
  split at step
  · split_ifs at step
    cases step
    exact effect_setPc _
  · cases step
    exact effect_setPc _

theorem giveBlock_effect {ptr slot retries : Nat} {cur : BitVec 64}
    (pc : s.threads thread = .freeCas ptr slot retries cur) :
    Effect s thread (s.giveBlock thread ptr slot retries cur) := by
  rw [giveBlock]
  split
  · rename_i same
    exact { effect_setPc (.freed .ok) with
      bitmap := .inr (.inr ⟨ptr, slot, retries, cur, pc, same⟩) }
  · exact effect_setPc _

theorem access_effect (step : s.access config thread = some s') : Effect s thread s' := by
  simp only [access] at step
  generalize pc : s.threads thread = here at step
  cases here with
  | idle | initBody =>
    cases step
  | loadInitialized | initTest | returned | freeLoad | freed =>
    cases step
    exact effect_setPc _
  | initCas =>
    dsimp only at step
    split at step
    · cases step
      exact { effect_setPc .initBody with }
    · cases step
      exact effect_setPc _
  | initStore =>
    cases step
    exact { effect_setPc .wait with }
  | wait =>
    dsimp only at step
    split at step
    · cases step
      exact ⟨fun _ _ => rfl, rfl, .inl rfl⟩
    · obtain ⟨h, _, rfl⟩ := Option.map_eq_some_iff.mp step
      exact effect_setPc _
  | loadWord w =>
    obtain ⟨h, _, rfl⟩ := Option.map_eq_some_iff.mp step
    exact effect_setPc _
  | casWord w cur =>
    obtain ⟨h, _, taken⟩ := Option.bind_eq_some_iff.mp step
    exact takeBlock_effect pc taken
  | freeTest ptr =>
    dsimp only at step
    split_ifs at step
    obtain ⟨h, _, found⟩ := Option.bind_eq_some_iff.mp step
    exact findSlot_effect found
  | freeAssert ptr slot retries =>
    dsimp only at step
    split_ifs at step
    cases step
    exact effect_setPc _
  | freeCas ptr slot retries cur =>
    cases step
    exact giveBlock_effect pc

variable {ev : SpanEvent Thread}

theorem step_others (made : s.step config ev = some s') {other : Thread} (ne : other ≠ ev.actor) :
    s'.threads other = s.threads other := by
  cases ev with
  | spanNextFree thread | spanFree thread ptr =>
    simp only [step] at made
    split at made
    · cases made
      exact threads_setPc_of_ne s _ ne
    · cases made
  | malloc thread unalignedData =>
    simp only [step] at made
    split at made
    · obtain ⟨h, _, rfl⟩ := Option.map_eq_some_iff.mp made
      exact threads_setPc_of_ne s _ ne
    · cases made
  | thread thread => exact (access_effect made).others other ne

/-- While nobody clears a bit, the bits that are set stay set. -/
theorem step_keeps (inv : Consistent config s) (undisturbed : s.Undisturbed thread ev)
    (made : s.step config ev = some s') (hdr : s.header = some h) :
    s'.header = some h ∧ ∀ b, bit s.bitmap b = true → bit s'.bitmap b = true := by
  cases ev with
  | spanNextFree actor | spanFree actor ptr =>
    simp only [step] at made
    split at made
    · cases made
      exact ⟨hdr, fun _ isSet => isSet⟩
    · cases made
  | malloc actor unalignedData =>
    simp only [step] at made
    split at made
    · rename_i pc
      have known := inv.initialised.during actor
      rw [pc] at known
      rw [known.2.1] at hdr
      cases hdr
    · cases made
  | thread actor =>
    have effect := access_effect made
    refine ⟨effect.header.trans hdr, fun b isSet => ?_⟩
    obtain same | ⟨w, cur, pc, same, written⟩ | ⟨ptr, slot, retries, cur, pc, same⟩ :=
      effect.bitmap
    · rwa [same]
    · have known := inv.threads actor
      rw [pc] at known
      obtain ⟨_, _, _, notFull, _⟩ := known
      subst same
      rw [written, bit_setIn (lowestZero_lt notFull), isSet, Bool.true_or]
    · simp only [Undisturbed, pc] at undisturbed
      exact absurd same undisturbed

theorem Full.step (full : s.Full) (inv : Consistent config s)
    (undisturbed : s.Undisturbed thread ev) (step : s.step config ev = some s') :
    s'.Full := by
  obtain ⟨h, hdr, isSet⟩ := full
  obtain ⟨kept, more⟩ := step_keeps inv undisturbed step hdr
  exact ⟨h, kept, fun b inside => more b (isSet b inside)⟩

/-! ## What the scan has seen -/

section Scan

omit [DecidableEq Thread]

def ScanAt (s : Span Thread) : Pc → Prop
  | .loadWord w | .casWord w _ => ∀ h, s.header = some h → ∀ block < h.numBlocks,
      block < bitsPerMword * w → bit s.bitmap block = true
  | .returned none => s.Full
  | _ => True

theorem scanAt_scan {h : Header} {w : Nat} (hdr : s.header = some h)
    (enough : h.numBlocks ≤ bitsPerMword * h.words)
    (seen : ∀ b < h.numBlocks, b < bitsPerMword * w → bit s.bitmap b = true) :
    s.ScanAt (h.scan w) := by
  rw [Header.scan]
  split
  · intro found isHeader
    obtain rfl : found = h := Option.some.inj (isHeader.symm.trans hdr)
    exact seen
  · rename_i last
    refine ⟨h, hdr, fun b inside => seen b inside ?_⟩
    have := Nat.mul_le_mul_left bitsPerMword (Nat.le_of_not_lt last)
    omega

/-- What a look at a word tells. -/
theorem scanAt_checkWord {h : Header} {w : Nat} (hdr : s.header = some h)
    (enough : h.numBlocks ≤ bitsPerMword * h.words) (known : s.ScanAt (.loadWord w)) :
    s.ScanAt (h.checkWord w (s.bitmap w)) := by
  have seen := known h hdr
  have inWord : ∀ b, ¬ b < bitsPerMword * w → b < bitsPerMword * (w + 1) →
      bit s.bitmap b = (s.bitmap w).getLsbD (b % 64) ∧ b = b % 64 + w * 64 := by
    intro b lo hi
    simp only [bitsPerMword] at lo hi
    have word : b / 64 = w := by omega
    exact ⟨by rw [bit, word], by omega⟩
  rw [Header.checkWord]
  split
  · rename_i full
    refine scanAt_scan hdr enough fun b inside hi => ?_
    by_cases lo : b < bitsPerMword * w
    · exact seen b inside lo
    · rw [(inWord b lo hi).1, full, BitVec.getLsbD_allOnes]
      exact decide_eq_true (Nat.mod_lt _ (by decide))
  · split
    · rename_i beyond
      refine scanAt_scan hdr enough fun b inside hi => ?_
      by_cases lo : b < bitsPerMword * w
      · exact seen b inside lo
      · obtain ⟨sameBit, number⟩ := inWord b lo hi
        rw [sameBit]
        simp only [bitsPerMword] at beyond
        exact getLsbD_of_lt_lowestZero (by omega) (Nat.mod_lt _ (by decide))
    · exact known

/-- What has been seen stays true while nobody clears a bit. -/
theorem ScanAt.mono {pc : Pc} (known : s.ScanAt pc) (isThread : s.ThreadAt config thread pc)
    (kept : ∀ h, s.header = some h → s'.header = some h ∧
      ∀ b, bit s.bitmap b = true → bit s'.bitmap b = true) : s'.ScanAt pc := by
  have seen : ∀ h w, s.Ready h → s.ScanAt (.loadWord w) → s'.ScanAt (.loadWord w) := by
    intro h w ready scanned found hdr b inside lt
    obtain ⟨same, more⟩ := kept h ready.2
    obtain rfl : found = h := Option.some.inj (hdr.symm.trans same)
    exact more b (scanned found ready.2 b inside lt)
  cases pc with
  | loadWord w | casWord w current =>
    obtain ⟨h, ready, _⟩ := isThread
    exact seen h w ready known
  | returned b =>
    cases b with
    | none =>
      obtain ⟨h, hdr, isSet⟩ := known
      obtain ⟨same, more⟩ := kept h hdr
      exact ⟨h, same, fun b inside => more b (isSet b inside)⟩
    | some ptr => trivial
  | idle | loadInitialized | initTest | initCas | initBody | initStore | wait | freeTest
  | freeAssert | freeLoad | freeCas | freed => trivial

end Scan

section

variable (known : s.ScanAt (s.threads thread)) (inv : Consistent config s)
  (enough : config.BitForEveryBlock)
include known inv enough

theorem ScanAt.access (undisturbed : s.Undisturbed thread (.thread thread))
    (step : s.access config thread = some s') : s'.ScanAt (s'.threads thread) := by
  have fits : ∀ {h}, s.header = some h → h.numBlocks ≤ bitsPerMword * h.words := by
    intro h hdr
    obtain ⟨data, laidOut⟩ := inv.initialised.laidOut h hdr
    exact enough data h laidOut
  have moved : ∀ pc, s.ScanAt pc →
      (s.setPc thread pc).ScanAt ((s.setPc thread pc).threads thread) := by
    intro pc scanned
    rw [threads_setPc_self]
    exact scanned
  simp only [Span.access] at step
  simp only [Undisturbed] at undisturbed
  cases pc : s.threads thread with
  | idle | initBody =>
    rw [pc] at step
    cases step
  | loadInitialized | initTest =>
    rw [pc] at step
    cases step
    refine moved _ ?_
    split
    · trivial
    · trivial
  | initCas =>
    rw [pc] at step
    dsimp only at step
    split at step
    · cases step
      simp [ScanAt]
    · cases step
      exact moved _ trivial
  | initStore =>
    rw [pc] at step
    cases step
    simp [ScanAt]
  | wait =>
    rw [pc] at step
    dsimp only at step
    split at step
    · cases step
      exact known
    · obtain ⟨h, hdr, rfl⟩ := Option.map_eq_some_iff.mp step
      refine moved _ (scanAt_scan hdr (fits hdr) fun block _ lt => ?_)
      exact absurd lt (Nat.not_lt_zero _)
  | loadWord w =>
    rw [pc] at step known
    obtain ⟨h, hdr, rfl⟩ := Option.map_eq_some_iff.mp step
    exact moved _ (scanAt_checkWord hdr (fits hdr) known)
  | casWord w cur =>
    rw [pc] at step undisturbed
    obtain ⟨h, _, taken⟩ := Option.bind_eq_some_iff.mp step
    rw [takeBlock, if_pos (undisturbed trivial)] at taken
    dsimp only at taken
    split_ifs at taken
    cases taken
    simp [ScanAt]
  | returned | freed | freeLoad =>
    rw [pc] at step
    cases step
    exact moved _ trivial
  | freeTest ptr =>
    rw [pc] at step
    dsimp only at step
    split_ifs at step
    obtain ⟨h, _, found⟩ := Option.bind_eq_some_iff.mp step
    simp only [findSlot] at found
    split at found
    · split_ifs at found
      cases found
      exact moved _ trivial
    · cases found
      exact moved _ trivial
  | freeAssert ptr slot retries =>
    rw [pc] at step
    dsimp only at step
    split_ifs at step
    cases step
    exact moved _ trivial
  | freeCas ptr slot retries cur =>
    rw [pc] at step undisturbed
    cases step
    rw [giveBlock, if_neg undisturbed]
    exact moved _ trivial

theorem ScanAt.step (undisturbed : s.Undisturbed thread ev) (step : s.step config ev = some s') :
    s'.ScanAt (s'.threads thread) := by
  by_cases own : thread = ev.actor
  · cases ev with
    | spanNextFree actor | spanFree actor ptr =>
      obtain rfl : thread = actor := own
      simp only [Span.step] at step
      split at step
      · cases step
        rw [threads_setPc_self]
        trivial
      · cases step
    | malloc actor unalignedData =>
      obtain rfl : thread = actor := own
      simp only [Span.step] at step
      split at step
      · obtain ⟨h, _, rfl⟩ := Option.map_eq_some_iff.mp step
        simp [ScanAt]
      · cases step
    | thread actor =>
      obtain rfl : thread = actor := own
      exact known.access inv enough undisturbed step
  · rw [step_others step own]
    exact known.mono (inv.threads thread)
      fun h hdr => step_keeps inv undisturbed step hdr

end

end Span

end Xdk.Slab
