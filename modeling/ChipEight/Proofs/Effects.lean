import ChipEight.Proofs.Session

/-!
# What a step does

`Machine.StepCases` lists the five ways a step can go, each with the reason for it
and with the whole of what comes of it. Nothing else has to look into `step`.

For a step that carries an instruction out there is one lemma for each part of the
machine, which says what becomes of that part under any instruction at all: most
of them leave it alone, and the lemma names the few that do not.

`Moment.Effect` puts the two together with ticks and with changes of host. It is
what an invariant of a whole session is checked against.
-/

namespace ChipEight

variable {size size' : Nat} {σ : Type} [Host σ]

theorem Memory.overrun?_eq_none_iff {start : UInt16} {n : Nat} :
    overrun? size start n = none ↔ start.toNat + n ≤ size := by
  rw [overrun?]
  split
  · rename_i h
    exact iff_of_true rfl h
  · rename_i h
    exact iff_of_false nofun h

/-- The error names the first address that is missing. -/
theorem Memory.overrun?_eq_some_iff {start : UInt16} {n : Nat} {e : Error} :
    overrun? size start n = some e ↔
      size < start.toNat + n ∧ e = .addressOutOfRange (max start.toNat size) := by
  rw [overrun?]
  split
  · rename_i h
    exact iff_of_false nofun fun he => absurd h (Nat.not_le.mpr he.1)
  · rename_i h
    rw [Option.some.injEq, eq_comm]
    exact ⟨fun he => ⟨Nat.not_le.mp h, he⟩, fun he => he.2⟩

namespace Machine

section Step

variable {m : Machine size} {h : σ} {x : Register} {word : UInt16} {i : Instruction} {e : Error}

theorem step_of_noKey (hx : m.awaiting = some x) (hk : (Host.keys h).1.lowest? = none) :
    m.step h = ⟨Event.account m.pc .blocked, m, (Host.keys h).2⟩ := by
  simp only [step, hx, poll, hk]
  rfl

theorem step_of_key {key : Key} (hx : m.awaiting = some x)
    (hk : (Host.keys h).1.lowest? = some key) :
    m.step h = ⟨Event.account m.pc (.keyStored key x), m.storeKey key x, (Host.keys h).2⟩ := by
  simp only [step, hx, poll, hk]
  rfl

theorem step_of_next_error (hx : m.awaiting = none) (hn : m.next = .error e) (h : σ) :
    m.step h = ⟨Event.account m.pc (.unreadable e), m, h⟩ := by
  simp only [step, hx, dispatch, hn]
  rfl

theorem step_of_obstacle (hx : m.awaiting = none) (hn : m.next = .ok (word, i))
    (ho : m.obstacle? i = some e) (h : σ) :
    m.step h = ⟨Event.account m.pc (.refused word i e), m, h⟩ := by
  simp only [step, hx, dispatch, hn, carryOut, ho]
  rfl

/-- An instruction that begins to wait stays where it is, so both of its records have one place. -/
theorem step_of_no_obstacle (hx : m.awaiting = none) (hn : m.next = .ok (word, i))
    (ho : m.obstacle? i = none) (h : σ) :
    m.step h = ⟨Event.account m.pc (.executed word i), (m.perform h i).1, (m.perform h i).2⟩ := by
  have hr : .dispatched m.pc word i :: (m.perform h i).1.aftermath i
      = (Event.executed word i).records m.pc := by
    cases i <;> rfl
  simp only [step, hx, dispatch, hn, carryOut, ho, hr]
  rfl

/-- Only a wait can block. -/
theorem dispatch_ne_blocked (m : Machine size) (h : σ) :
    (m.dispatch h).event.outcome ≠ .blocked := by
  rw [dispatch]
  cases m.next with
  | error e =>
    intro ho
    cases ho
  | ok p =>
    dsimp only
    rw [carryOut]
    cases m.obstacle? p.2 <;> intro ho <;> cases ho

end Step

/-- The ways a step can go. -/
inductive StepCases (m : Machine size) (h : σ) : Prop where
  | blocked {x : Register} (hx : m.awaiting = some x) (hk : (Host.keys h).1.lowest? = none)
      (hs : m.step h = ⟨Event.account m.pc .blocked, m, (Host.keys h).2⟩)
  | keyStored {x : Register} {key : Key} (hx : m.awaiting = some x)
      (hk : (Host.keys h).1.lowest? = some key)
      (hs : m.step h = ⟨Event.account m.pc (.keyStored key x), m.storeKey key x, (Host.keys h).2⟩)
  | unreadable {e : Error} (hx : m.awaiting = none) (hn : m.next = .error e)
      (hs : m.step h = ⟨Event.account m.pc (.unreadable e), m, h⟩)
  | refused {word : UInt16} {i : Instruction} {e : Error} (hx : m.awaiting = none)
      (hn : m.next = .ok (word, i)) (ho : m.obstacle? i = some e)
      (hs : m.step h = ⟨Event.account m.pc (.refused word i e), m, h⟩)
  | executed {word : UInt16} {i : Instruction} (hx : m.awaiting = none)
      (hn : m.next = .ok (word, i)) (ho : m.obstacle? i = none)
      (hs : m.step h
        = ⟨Event.account m.pc (.executed word i), (m.perform h i).1, (m.perform h i).2⟩)

/-- **These are all the ways.** -/
theorem stepCases (m : Machine size) (h : σ) : m.StepCases h := by
  cases hx : m.awaiting with
  | some x =>
    cases hk : (Host.keys h).1.lowest? with
    | none => exact .blocked hx hk (step_of_noKey hx hk)
    | some key => exact .keyStored hx hk (step_of_key hx hk)
  | none =>
    cases hn : m.next with
    | error e => exact .unreadable hx hn (step_of_next_error hx hn h)
    | ok p =>
      obtain ⟨word, i⟩ := p
      cases ho : m.obstacle? i with
      | some e => exact .refused hx hn ho (step_of_obstacle hx hn ho h)
      | none => exact .executed hx hn ho (step_of_no_obstacle hx hn ho h)

/-- **What is noted on the way is what the event tells.** All of it is noted at the place where the
step began. -/
theorem account_step (m : Machine size) (h : σ) :
    (m.step h).toAccount = (m.step h).event.account m.pc := by
  cases m.stepCases h with
  | blocked _ _ hs | keyStored _ _ hs | unreadable _ _ hs | refused _ _ _ hs | executed _ _ _ hs =>
    rw [hs]
    rfl

/-- Two steps that begin at one place and in which the same happens have the same to tell. -/
theorem account_congr {τ : Type} [Host τ] {m : Machine size} {m' : Machine size'} {h : σ} {g : τ}
    (hpc : m'.pc = m.pc) (he : (m'.step g).event = (m.step h).event) :
    (m'.step g).toAccount = (m.step h).toAccount :=
  calc (m'.step g).toAccount = (m'.step g).event.account m'.pc := m'.account_step g
    _ = (m.step h).event.account m.pc := by rw [he, hpc]
    _ = (m.step h).toAccount := (m.account_step h).symm

theorem records_step (m : Machine size) (h : σ) :
    (m.step h).records = (m.step h).event.records m.pc :=
  congrArg Account.records (m.account_step h)

/-- The ways a step can go in two machines that find the same before them. -/
inductive TwinSteps (m : Machine size) (m' : Machine size') (h : σ) : Prop where
  | still {e : Event} {g : σ} (he : e.executed? = none)
      (hs : m.step h = ⟨e.account m.pc, m, g⟩) (hs' : m'.step h = ⟨e.account m'.pc, m', g⟩)
  | keyStored {key : Key} {x : Register}
      (hs : m.step h = ⟨Event.account m.pc (.keyStored key x), m.storeKey key x, (Host.keys h).2⟩)
      (hs' : m'.step h
        = ⟨Event.account m'.pc (.keyStored key x), m'.storeKey key x, (Host.keys h).2⟩)
  | executed {word : UInt16} {i : Instruction} (hx : m.awaiting = none)
      (hn : m.next = .ok (word, i))
      (hs : m.step h
        = ⟨Event.account m.pc (.executed word i), (m.perform h i).1, (m.perform h i).2⟩)
      (hs' : m'.step h
        = ⟨Event.account m'.pc (.executed word i), (m'.perform h i).1, (m'.perform h i).2⟩)

/-- **They take the same way.** -/
theorem twinSteps {m : Machine size} {m' : Machine size'} (h : σ)
    (hx' : m'.awaiting = m.awaiting) (hn' : m.awaiting = none → m'.next = m.next)
    (ho' : ∀ {word i}, m.awaiting = none → m.next = .ok (word, i) →
      m'.obstacle? i = m.obstacle? i) : m.TwinSteps m' h := by
  cases m.stepCases h with
  | blocked hx hk hs => exact .still rfl hs (step_of_noKey (hx'.trans hx) hk)
  | keyStored hx hk hs => exact .keyStored hs (step_of_key (hx'.trans hx) hk)
  | unreadable hx hn hs =>
    exact .still rfl hs (step_of_next_error (hx'.trans hx) ((hn' hx).trans hn) h)
  | refused hx hn ho hs =>
    exact .still rfl hs
      (step_of_obstacle (hx'.trans hx) ((hn' hx).trans hn) ((ho' hx hn).trans ho) h)
  | executed hx hn ho hs =>
    exact .executed hx hn hs
      (step_of_no_obstacle (hx'.trans hx) ((hn' hx).trans hn) ((ho' hx hn).trans ho) h)

/-! ## The instruction at the program counter -/

/-- A word can be read where both of its bytes are in memory. -/
theorem fetch_eq_ok_iff {m : Machine size} {word : UInt16} :
    m.fetch = .ok word ↔ m.pc.toNat + 2 ≤ size ∧
      (m.memory.byte m.pc.toNat).toUInt16 * 256 +
        (m.memory.byte (m.pc.toNat + 1)).toUInt16 = word := by
  rw [fetch, Memory.overrun?]
  by_cases h : m.pc.toNat + 2 ≤ size
  · rw [if_pos h]
    simp only [Except.ok.injEq, h, true_and]
  · rw [if_neg h]
    simp only [reduceCtorEq, h, false_and]

/-- The high byte of a word comes first. -/
theorem toNat_of_fetch {m : Machine size} {word : UInt16} (h : m.fetch = .ok word) :
    word.toNat
      = 256 * (m.memory.byte m.pc.toNat).toNat + (m.memory.byte (m.pc.toNat + 1)).toNat := by
  rw [← (fetch_eq_ok_iff.mp h).2, UInt16.toNat_add, UInt16.toNat_mul, UInt8.toNat_toUInt16,
    UInt8.toNat_toUInt16]
  have h0 := (m.memory.byte m.pc.toNat).toNat_lt
  have h1 := (m.memory.byte (m.pc.toNat + 1)).toNat_lt
  have h256 : (256 : UInt16).toNat = 256 := rfl
  rw [h256]
  omega

theorem next_eq_ok_iff {m : Machine size} {word : UInt16} {i : Instruction} :
    m.next = .ok (word, i) ↔ m.fetch = .ok word ∧ i.toWord = word := by
  rw [next]
  cases m.fetch with
  | error e => simp
  | ok w =>
    dsimp only
    rw [← Instruction.decode_eq_ok_iff, Except.ok.injEq]
    constructor
    · intro h
      split at h
      · cases h
      · cases h
        exact ⟨rfl, ‹_›⟩
    · rintro ⟨rfl, hd⟩
      rw [hd]

/-- An instruction that reaches memory needs it there, and nothing else. -/
theorem obstacle?_of_span? (m : Machine size) {i : Instruction} {n : Nat}
    (hs : i.span? = some n) : m.obstacle? i = Memory.overrun? size m.index n := by
  cases i with
  | draw x y rows | writeDecimal x | save x | restore x => cases hs; rfl
  | _ => cases hs

/-! ## Registers -/

/-- A byte that is put into a register is there, and no other register changes. -/
theorem v_put (m : Machine size) (x : Register) (b : UInt8) (r : Register) :
    (m.put x b).v r = if r = x then b else m.v r := by
  rw [v, v, put, Fin.getElem_fin, Fin.getElem_fin, Vector.getElem_set]
  by_cases h : r = x
  · rw [if_pos h, if_pos (congrArg Fin.val h.symm)]
  · rw [if_neg h, if_neg fun e => h (Fin.ext e.symm)]

/-- The flag is put where it belongs after the result, be it to the same register. -/
theorem v_combine (m : Machine size) (op : Operation) (x y r : Register) :
    (m.combine op x y).v r =
      match op.flag? (m.v x) (m.v y) with
      | none => if r = x then op.value (m.v x) (m.v y) else m.v r
      | some c =>
        if r = .flag then c.toUInt8 else if r = x then op.value (m.v x) (m.v y) else m.v r := by
  rw [combine]
  cases op.flag? (m.v x) (m.v y) with
  | none => exact m.v_put ..
  | some c =>
    dsimp only
    rw [putFlag, v_put, v_put]

theorem v_restore (m : Machine size) (x r : Register) :
    (m.restore x).v r = if r ≤ x then m.memory.byte (m.index.toNat + r.val) else m.v r := by
  rw [v, restore, Fin.getElem_fin, Vector.getElem_ofFn]

/-! ## Instructions, part by part -/

-- Each part is compared as it stands in `perform`. Only for `restore` it is laid open first, or
-- all its registers would be compared with those before.

theorem programLength_perform (m : Machine size) (h : σ) (i : Instruction) :
    (m.perform h i).1.programLength = m.programLength := by
  cases i with
  | combine op x y => cases op <;> rfl
  | restore x => rw [perform, advance, restore]
  | _ => rfl

theorem stack_perform (m : Machine size) (h : σ) (i : Instruction) :
    (m.perform h i).1.stack =
      match i with
      | .ret => m.stack.tail
      | .call _ => (m.pc + 2) :: m.stack
      | _ => m.stack := by
  cases i with
  | combine op x y => cases op <;> rfl
  | restore x => rw [perform, advance, restore]
  | _ => rfl

theorem delay_perform (m : Machine size) (h : σ) (i : Instruction) :
    (m.perform h i).1.delay =
      match i with
      | .setDelay x => ⟨m.v x⟩
      | _ => m.delay := by
  cases i with
  | combine op x y => cases op <;> rfl
  | restore x => rw [perform, advance, restore]
  | _ => rfl

theorem sound_perform (m : Machine size) (h : σ) (i : Instruction) :
    (m.perform h i).1.sound =
      match i with
      | .setSound x => ⟨m.v x⟩
      | _ => m.sound := by
  cases i with
  | combine op x y => cases op <;> rfl
  | restore x => rw [perform, advance, restore]
  | _ => rfl

theorem awaiting_perform (m : Machine size) (h : σ) (i : Instruction) :
    (m.perform h i).1.awaiting =
      match i with
      | .awaitKey x => some x
      | _ => m.awaiting := by
  cases i with
  | combine op x y => cases op <;> rfl
  | restore x => rw [perform, advance, restore]
  | _ => rfl

/-- Execution goes on behind an instruction, or one further, or where the instruction leads. -/
theorem pc_perform (m : Machine size) (h : σ) (i : Instruction) :
    (m.perform h i).1.pc =
      match i with
      | .ret => m.stack.headD m.pc
      | .jump t | .call t => UInt16.ofNat t.val
      | .jumpOffset t => UInt16.ofNat (t.val + (m.v .offset).toNat)
      | .awaitKey _ => m.pc
      | .skipIfByte x n => m.pc + if m.v x == n then 4 else 2
      | .skipUnlessByte x n => m.pc + if m.v x != n then 4 else 2
      | .skipIfEqual x y => m.pc + if m.v x == m.v y then 4 else 2
      | .skipUnlessEqual x y => m.pc + if m.v x != m.v y then 4 else 2
      | .skipIfKey x => m.pc + if (Host.keys h).1.isDown (Register.ofByte (m.v x)) then 4 else 2
      | .skipUnlessKey x => m.pc + if !(Host.keys h).1.isDown (Register.ofByte (m.v x)) then 4 else 2
      | _ => m.pc + 2 := by
  cases i with
  | combine op x y => cases op <;> rfl
  | restore x => rw [perform, advance, restore]
  | _ => rfl

/-- **An addition to the index register, as one of numbers.** A sum that comes round and a sum
behind the end of memory are no addresses for one reason, that memory ends before them. -/
theorem addIndex_eq (m : Machine size) (x : Register) :
    m.addIndex x
      = ({ m with index := UInt16.ofNat (min (m.index.toNat + (m.v x).toNat) 65535) }
          : Machine size).putFlag (decide (min size 65536 ≤ m.index.toNat + (m.v x).toNat)) := by
  have hv : (m.v x).toUInt16.toNat = (m.v x).toNat := UInt8.toNat_toUInt16 _
  have hi := m.index.toNat_lt
  have hb := (m.v x).toNat_lt
  have hindex : addSaturating m.index (m.v x).toUInt16
      = UInt16.ofNat (min (m.index.toNat + (m.v x).toNat) 65535) := by
    refine UInt16.toNat_inj.mp ?_
    rw [addSaturating, hv, UInt16.toNat_ofNat']
    split
    · have h65535 : (65535 : UInt16).toNat = 65535 := rfl
      omega
    · rw [UInt16.toNat_add, hv]
      omega
  have hflag : (decide (65536 ≤ m.index.toNat + (m.v x).toUInt16.toNat)
        || decide (size ≤ (m.index + (m.v x).toUInt16).toNat))
      = decide (min size 65536 ≤ m.index.toNat + (m.v x).toNat) := by
    rw [← Bool.decide_or, decide_eq_decide, UInt16.toNat_add, hv]
    omega
  rw [← hindex, ← hflag]
  rfl

theorem index_perform (m : Machine size) (h : σ) (i : Instruction) :
    (m.perform h i).1.index =
      match i with
      | .setIndex t => UInt16.ofNat t.val
      | .pointGlyph x => Font.glyphAddress (m.v x)
      | .addIndex x => UInt16.ofNat (min (m.index.toNat + (m.v x).toNat) 65535)
      | _ => m.index := by
  cases i with
  | combine op x y => cases op <;> rfl
  | restore x => rw [perform, advance, restore]
  | addIndex x =>
    rw [perform, addIndex_eq]
    rfl
  | _ => rfl

/-- What is below the display changes only by what is written through the index register. -/
theorem low_perform (m : Machine size) (h : σ) (i : Instruction) :
    (m.perform h i).1.memory.low =
      match i with
      | .writeDecimal x => (m.memory.write m.index.toNat (decimalDigits (m.v x))).low
      | .save x => (m.memory.write m.index.toNat (m.registers.toList.take (x.val + 1))).low
      | _ => m.memory.low := by
  cases i with
  | combine op x y => cases op <;> rfl
  | restore x => rw [perform, advance, restore]
  | _ => rfl

/-- What becomes of a register, which may be the one that an instruction fills, the flag register,
both or neither. -/
theorem v_perform (m : Machine size) (h : σ) (i : Instruction) (r : Register) :
    (m.perform h i).1.v r =
      match i with
      | .set x n => if r = x then n else m.v r
      | .increase x n => if r = x then m.v x + n else m.v r
      | .combine op x y => (m.combine op x y).v r
      | .random x n => if r = x then (Host.random h).1 &&& n else m.v r
      | .draw x y rows =>
        if r = .flag then
          (m.memory.display.collides (m.v x).toNat (m.v y).toNat
            (m.memory.read m.index.toNat rows.val)).toUInt8
        else m.v r
      | .getDelay x => if r = x then m.delay.value else m.v r
      | .addIndex x =>
        if r = .flag then (decide (min size 65536 ≤ m.index.toNat + (m.v x).toNat)).toUInt8
        else m.v r
      | .restore x => (m.restore x).v r
      | _ => m.v r := by
  cases i with
  | set x n | increase x n | random x n | getDelay x => exact m.v_put ..
  | draw x y rows => exact m.v_put .flag _ r
  | addIndex x =>
    rw [perform, addIndex_eq]
    exact v_put _ .flag _ r
  | restore x =>
    dsimp only
    rw [perform, advance, v, v]
  | _ => rfl

/-! ## Steps -/

/-- No step moves the end of the program. -/
theorem programEnd_step (m : Machine size) (h : σ) :
    (m.step h).machine.programEnd = m.programEnd := by
  cases m.stepCases h with
  | blocked _ _ hs | unreadable _ _ hs | refused _ _ _ hs => rw [hs]
  | keyStored _ _ hs => rw [hs]; rfl
  | executed _ _ _ hs =>
    rw [hs, programEnd, programLength_perform]
    rfl

/-- A step in vain has asked for the keys, and that is all. -/
theorem step_of_blocked {m : Machine size} {h : σ} (hb : (m.step h).event.outcome = .blocked) :
    (m.step h).machine = m ∧ (m.step h).host = (Host.keys h).2 := by
  cases m.stepCases h with
  | blocked _ _ hs => rw [hs]; exact ⟨rfl, rfl⟩
  | keyStored _ _ hs | unreadable _ _ hs | refused _ _ _ hs | executed _ _ _ hs =>
    rw [hs] at hb
    cases hb

end Machine

/-! ## Moments -/

theorem Session.records_step (s : Session size σ) :
    s.step.records = s.step.event.records s.machine.pc :=
  s.machine.records_step s.host

/-- What a step does that carries an instruction out. -/
theorem Session.step_of_next {s : Session size σ} {word : UInt16} {i : Instruction}
    (hx : s.machine.awaiting = none) (hn : s.machine.next = .ok (word, i))
    (ho : s.machine.obstacle? i = none) :
    s.step.event = .executed word i
      ∧ s.after .step = ⟨(s.machine.perform s.host i).1, (s.machine.perform s.host i).2⟩ := by
  rw [Session.after, Session.step, Machine.step_of_no_obstacle hx hn ho]
  exact ⟨rfl, rfl⟩

/-- A step that something stands in the way of. -/
theorem Session.step_of_obstacle {s : Session size σ} {word : UInt16} {i : Instruction} {e : Error}
    (hx : s.machine.awaiting = none) (hn : s.machine.next = .ok (word, i))
    (ho : s.machine.obstacle? i = some e) :
    s.step = ⟨Event.account s.machine.pc (.refused word i e), s.machine, s.host⟩ :=
  Machine.step_of_obstacle hx hn ho s.host

/-- What is known of a step once it has carried an instruction out. -/
theorem Session.of_executed {s : Session size σ} {word : UInt16} {i : Instruction}
    (he : s.step.event = .executed word i) :
    s.machine.awaiting = none ∧ s.machine.next = .ok (word, i) ∧ s.machine.obstacle? i = none
      ∧ s.after .step = ⟨(s.machine.perform s.host i).1, (s.machine.perform s.host i).2⟩ := by
  change (s.machine.step s.host).event = _ at he
  cases s.machine.stepCases s.host with
  | executed hx hn ho hs =>
    rw [hs] at he
    cases he
    exact ⟨hx, hn, ho, (Session.step_of_next hx hn ho).2⟩
  | blocked _ _ hs | keyStored _ _ hs | unreadable _ _ hs | refused _ _ _ hs =>
    rw [hs] at he
    cases he

namespace Moment

/-- What a moment can do to a machine. -/
inductive Effect (x : Moment size σ) : Prop where
  | executed {word : UInt16} {i : Instruction} (hi : x.executed? = some i)
      (hr : x.report? = none) (hn : x.before.machine.next = .ok (word, i))
      (ho : x.before.machine.obstacle? i = none)
      (hm : x.after.machine = (x.before.machine.perform x.before.host i).1)
  | keyStored {key : Key} {r : Register} (hi : x.executed? = none) (hr : x.report? = none)
      (hm : x.after.machine = x.before.machine.storeKey key r)
  | ticked (hi : x.executed? = none) (hr : x.report? = some x.before.machine.tickReport)
      (hm : x.after.machine = x.before.machine.tick)
  | still (hi : x.executed? = none) (hr : x.report? = none)
      (hm : x.after.machine = x.before.machine)

theorem effect (x : Moment size σ) : x.Effect := by
  obtain ⟨s, mv⟩ := x
  cases mv with
  | tick => exact .ticked rfl rfl rfl
  | alter h => exact .still rfl rfl rfl
  | step =>
    have after_eq : (Moment.after ⟨s, .step⟩).machine = (s.machine.step s.host).machine := rfl
    have executed_eq :
        Moment.executed? ⟨s, .step⟩ = (s.machine.step s.host).event.executed? := rfl
    cases s.machine.stepCases s.host with
    | executed _ hn ho hs =>
      exact .executed (by rw [executed_eq, hs]; rfl) rfl hn ho (by rw [after_eq, hs])
    | keyStored _ _ hs =>
      exact .keyStored (by rw [executed_eq, hs]; rfl) rfl (by rw [after_eq, hs])
    | blocked _ _ hs | unreadable _ _ hs | refused _ _ _ hs =>
      exact .still (by rw [executed_eq, hs]; rfl) rfl (by rw [after_eq, hs])

/-- The machine after a move that carries an instruction out. -/
theorem machine_of_executed {x : Moment size σ} {i : Instruction} (hx : x.executed? = some i) :
    x.after.machine = (x.before.machine.perform x.before.host i).1 := by
  cases x.effect with
  | keyStored hi _ _ | ticked hi _ _ | still hi _ _ =>
    rw [hi] at hx
    cases hx
  | executed hi _ _ _ hm =>
    rw [hi] at hx
    cases hx
    exact hm

end Moment

end ChipEight
