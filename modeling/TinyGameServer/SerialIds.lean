import TinyGameServer.TCPServer
import TinyGameServer.UID

/-!
# Does a new connection get a free id?

The server accepts with the ids that `GenerateSerialID` makes of a clock that never runs back.
The number of a call in its second is not bounded by 1000, so the ids of a burst reach into those
of later seconds, and a local time that comes twice brings its ids again. For each connection
`births` has the second in which it was accepted.
-/

namespace TinyGameServer

structure SerialIds (ι : Type) where
  server : TCPServer ι
  uid : UID
  births : List ℤ

namespace SerialIds

variable {ι : Type}

/-- `time` is the first reading of the clock. -/
def init (time : ℤ) : SerialIds ι := { server := .init, uid := ⟨time, 0⟩, births := [] }

inductive Action (ι : Type) where
  /-- The loop that `PickEventLoop` returns and the seconds since the last accept. -/
  | handleNewConn (loop : ι) (passed : ℕ)
  | serve (a : TCPServer.Action ι)

variable [DecidableEq ι] (localtime : ℤ → Tm)

def clock (s : SerialIds ι) (passed : ℕ) : ℤ := s.uid.currentTime + passed

def accept (s : SerialIds ι) (loop : ι) (passed : ℕ) : SerialIds ι :=
  let made := s.uid.generateSerialID localtime (s.clock passed)
  { server := s.server.handleNewConn loop made.1
    uid := made.2
    births := s.births ++ [s.clock passed] }

def step (s : SerialIds ι) : Action ι → Option (SerialIds ι)
  | .handleNewConn loop passed => some (s.accept localtime loop passed)
  | .serve (.handleNewConn _ _) => none
  | .serve a => (s.server.step a).map ({ s with server := · })

variable {s s' : SerialIds ι}

/-- No connection in the registry has the id of the new one. -/
def Fresh (s : SerialIds ι) : Action ι → Prop
  | .handleNewConn _ passed =>
    ∀ c, s.server.connections.entry (s.uid.generateSerialID localtime (s.clock passed)).1 ≠
      some (some c)
  | .serve _ => True

def Registered (s : SerialIds ι) (c : ConnSPtr) : Prop :=
  ∃ k, s.server.connections.entry k = some (some c)

/-- Which accept of its second `c` was, in the 32 bits of the counter. -/
def number (s : SerialIds ι) (c : ConnSPtr) (second : ℤ) : Int32 :=
  Int32.ofNat ((s.births.take (c + 1)).count second)

def nextNumber (s : SerialIds ι) (second : ℤ) : Int32 := Int32.ofNat (s.births.count second + 1)

/-- The numbers of the registered connections do not reach over the 1000 numbers of each step of
the local time to that of the new one. -/
def NoSpill (s : SerialIds ι) : Action ι → Prop
  | .handleNewConn _ passed =>
    ∀ c second, s.Registered c → s.births[c]? = some second →
      (s.number c second).toInt ≠ (s.nextNumber (s.clock passed)).toInt +
        1000 * ((localtime (s.clock passed)).stamp - (localtime second).stamp)
  | .serve _ => True

/-- At most 1000 accepts in this second, and a local time above those of the earlier ones. -/
def WithinThousand (s : SerialIds ι) : Action ι → Prop
  | .handleNewConn _ passed =>
    s.births.count (s.clock passed) + 1 ≤ 1000 ∧
      ∀ second ∈ s.births, second ≠ s.clock passed →
        (localtime second).stamp < (localtime (s.clock passed)).stamp
  | .serve _ => True

/-! ## The ids in the registry -/

structure Invariant (s : SerialIds ι) : Prop where
  length : s.births.length = s.server.objects.length
  upto : ∀ second ∈ s.births, second ≤ s.uid.currentTime
  serial : s.uid.serial = Int32.ofNat (s.births.count s.uid.currentTime)
  born : ∀ {k : Int64} {c : ConnSPtr}, s.server.connections.entry k = some (some c) →
    ∃ second, s.births[c]? = some second ∧
      k.toInt = 1000 * (localtime second).stamp + (s.number c second).toInt

omit [DecidableEq ι] in
theorem init_invariant (time : ℤ) : (init time : SerialIds ι).Invariant localtime where
  length := rfl
  upto _ h := by cases h
  serial := rfl
  born h := by cases h

omit [DecidableEq ι] in
theorem handleClose_shrinks (t : TCPServer ι) (c : ConnSPtr) :
    (∀ k x, (t.handleClose c).connections.entry k = some (some x) →
      t.connections.entry k = some (some x)) ∧
    (t.handleClose c).objects.length = t.objects.length := by
  rw [TCPServer.handleClose]
  split
  · exact ⟨fun _ _ h => h, rfl⟩
  · exact ⟨fun _ _ h => SubscriptMap.entry_of_erase h, List.length_modify ..⟩

theorem serve_shrinks {t t' : TCPServer ι} {a : TCPServer.Action ι}
    (ha : ∀ loop serialId, a ≠ .handleNewConn loop serialId) (h : t.step a = some t') :
    (∀ k x, t'.connections.entry k = some (some x) → t.connections.entry k = some (some x)) ∧
    t'.objects.length = t.objects.length := by
  cases TCPServer.step_cases h with
  | handleNewConn loop serialId => exact absurd rfl (ha loop serialId)
  | start loop id rest _ hqueue hstart =>
      rw [TCPServer.startConn] at hstart
      split at hstart <;> cases hstart
      rename_i c connections hsub
      have hconnections : connections = (t.connections.subscript id).2 :=
        (congrArg Prod.snd hsub).symm
      refine ⟨fun k x hk => ?_, List.length_modify ..⟩
      apply SubscriptMap.entry_of_subscript
      rwa [← hconnections]
  | runClose loop c rest hqueue => exact handleClose_shrinks _ c
  | peerClose c => exact handleClose_shrinks t c
  | close c => exact ⟨fun _ _ hk => hk, rfl⟩
  | getConnection id => exact ⟨fun _ _ hk => SubscriptMap.entry_of_subscript hk, rfl⟩

variable {localtime}

omit [DecidableEq ι] in
/-- The counter has been set back in a new second, and there are no accepts in it yet. -/
theorem nextSerial_clock (h : s.Invariant localtime) (passed : ℕ) :
    s.uid.nextSerial (s.clock passed) = s.nextNumber (s.clock passed) := by
  rw [UID.nextSerial, nextNumber, Int32.ofNat_add]
  by_cases hsame : s.clock passed = s.uid.currentTime
  · rw [if_pos hsame, hsame, h.serial]
    rfl
  · have hnone : s.births.count (s.clock passed) = 0 := by
      apply List.count_eq_zero_of_not_mem
      intro hmem
      have hle := h.upto _ hmem
      unfold clock at hle hsame
      omega
    rw [if_neg hsame, hnone]
    rfl

theorem accept_uid (s : SerialIds ι) (loop : ι) (passed : ℕ) :
    (s.accept localtime loop passed).uid =
      ⟨s.clock passed, s.uid.nextSerial (s.clock passed)⟩ :=
  UID.generateSerialID_snd localtime s.uid (s.clock passed)

theorem entry_accept (s : SerialIds ι) (loop : ι) (passed : ℕ) (k : Int64) :
    (s.accept localtime loop passed).server.connections.entry k =
      if k = (s.uid.generateSerialID localtime (s.clock passed)).1 then
        some (some s.server.objects.length)
      else s.server.connections.entry k :=
  SubscriptMap.entry_assign ..

omit [DecidableEq ι] in
theorem toInt_id (h : s.Invariant localtime) (passed : ℕ) :
    (s.uid.generateSerialID localtime (s.clock passed)).1.toInt =
      1000 * (localtime (s.clock passed)).stamp + (s.nextNumber (s.clock passed)).toInt := by
  rw [UID.toInt_generateSerialID, nextSerial_clock h]

theorem accept_invariant (h : s.Invariant localtime) (loop : ι) (passed : ℕ) :
    (s.accept localtime loop passed).Invariant localtime where
  length := by
    simp [accept, TCPServer.handleNewConn, TCPServer.post, h.length]
  upto second hsecond := by
    rw [accept_uid]
    rcases List.mem_append.mp hsecond with hold | hnew
    · exact Int.le_trans (h.upto second hold) (Int.le_add_of_nonneg_right (Int.natCast_nonneg passed))
    · exact Int.le_of_eq (List.mem_singleton.mp hnew)
  serial := by
    rw [accept_uid, nextSerial_clock h, accept, nextNumber, List.count_append,
      List.count_singleton_self]
  born := by
    intro k c hk
    rw [entry_accept] at hk
    split_ifs at hk with hid
    · cases hk
      refine ⟨s.clock passed, by rw [accept, ← h.length, List.getElem?_concat_length], ?_⟩
      rw [hid, toInt_id h, number, accept, ← h.length, List.take_of_length_le (by simp),
        List.count_append, List.count_singleton_self, nextNumber]
    · obtain ⟨second, hbirth, hvalue⟩ := h.born hk
      have hlt := (List.getElem?_eq_some_iff.mp hbirth).1
      refine ⟨second, by rwa [accept, List.getElem?_append_left hlt], ?_⟩
      rw [hvalue, number, number, accept, List.take_append_of_le_length hlt]

theorem step_serve {a : TCPServer.Action ι} (h : step localtime s (.serve a) = some s') :
    (∀ loop serialId, a ≠ .handleNewConn loop serialId) ∧
      ∃ t, s.server.step a = some t ∧ s' = { s with server := t } := by
  have hmap : (∀ loop serialId, a ≠ .handleNewConn loop serialId) ∧
      (s.server.step a).map ({ s with server := · }) = some s' := by
    cases a with
    | handleNewConn loop serialId => cases h
    | _ => exact ⟨fun _ _ heq => (by cases heq), h⟩
  obtain ⟨t, ht, rfl⟩ := Option.map_eq_some_iff.mp hmap.2
  exact ⟨hmap.1, t, ht, rfl⟩

theorem step_invariant {a : Action ι} (h : s.Invariant localtime)
    (hs' : step localtime s a = some s') : s'.Invariant localtime := by
  cases a with
  | handleNewConn loop passed =>
      cases hs'
      exact accept_invariant h loop passed
  | serve a =>
      obtain ⟨ha, t, ht, rfl⟩ := step_serve hs'
      obtain ⟨hentries, hlength⟩ := serve_shrinks ha ht
      exact ⟨h.length.trans hlength.symm, h.upto, h.serial, fun hk => h.born (hentries _ _ hk)⟩

omit [DecidableEq ι] in
theorem fresh_iff {a : Action ι} (h : s.Invariant localtime) :
    s.Fresh localtime a ↔ s.NoSpill localtime a := by
  cases a with
  | handleNewConn loop passed =>
      have hnew := toInt_id h passed
      constructor
      · rintro hfresh c second ⟨k, hk⟩ hbirth hnumber
        obtain ⟨second', hbirth', hvalue⟩ := h.born hk
        cases hbirth.symm.trans hbirth'
        apply hfresh c
        rw [← hk]
        congr 1
        apply Int64.toInt.inj
        omega
      · intro hspill c hc
        obtain ⟨second, hbirth, hvalue⟩ := h.born hc
        refine hspill c second ⟨_, hc⟩ hbirth ?_
        omega
  | serve a => exact Iff.rfl

/-! ## At most 1000 ids in a second -/

structure Counted (localtime : ℤ → Tm) (s : SerialIds ι) : Prop where
  ids : s.Invariant localtime
  counts : ∀ second, s.births.count second ≤ 1000

omit [DecidableEq ι] in
theorem init_counted (time : ℤ) : (init time : SerialIds ι).Counted localtime where
  ids := init_invariant localtime time
  counts _ := (Nat.le_of_eq List.count_nil).trans (Nat.zero_le 1000)

omit [DecidableEq ι] in
/-- Within a second the numbers differ, and those of an earlier one stay below the step of the
local time. -/
theorem noSpill_of_within {a : Action ι} (h : s.Counted localtime)
    (hwithin : s.WithinThousand localtime a) : s.NoSpill localtime a := by
  cases a with
  | handleNewConn loop passed =>
      obtain ⟨hthousand, hlater⟩ := hwithin
      intro c second _ hbirth
      have hupto : (s.births.take (c + 1)).count second ≤ s.births.count second :=
        (List.take_sublist _ _).count_le _
      have hcount := h.counts second
      rw [number, nextNumber, Int32.toInt_ofNat_of_lt (by omega), Int32.toInt_ofNat_of_lt (by omega)]
      by_cases hsame : second = s.clock passed
      · subst hsame
        omega
      · have := hlater second (List.mem_of_getElem? hbirth) hsame
        omega
  | serve a => trivial

theorem step_counted {a : Action ι} (h : s.Counted localtime)
    (hwithin : s.WithinThousand localtime a) (hs' : step localtime s a = some s') :
    s'.Counted localtime := by
  refine ⟨step_invariant h.ids hs', fun second => ?_⟩
  cases a with
  | handleNewConn loop passed =>
      cases hs'
      rw [accept, List.count_append]
      by_cases hsame : s.clock passed = second
      · subst hsame
        rw [List.count_singleton_self]
        exact hwithin.1
      · rw [List.count_singleton, if_neg (by simpa using hsame)]
        exact h.counts second
  | serve a =>
      obtain ⟨ha, t, ht, rfl⟩ := step_serve hs'
      exact h.counts second

/-! ## Runs -/

/-- Over every run, with any time zone and any clock that does not run back: no accept takes over
the id of a registered connection while every second has at most 1000 accepts and local times
increase; and exactly when no number of a registered connection reaches over to the new one. -/
theorem fresh_run_iff (localtime : ℤ → Tm) (time : ℤ) (acts : List (Action ι)) :
    (Along (step localtime) (Fresh localtime) (init time) acts ↔
      Along (step localtime) (NoSpill localtime) (init time) acts) ∧
    (Along (step localtime) (WithinThousand localtime) (init time) acts →
      Along (step localtime) (Fresh localtime) (init time) acts) := by
  have hiff : Along (step localtime) (Fresh localtime) (init time) acts ↔
      Along (step localtime) (NoSpill localtime) (init time) acts :=
    along_iff (fun _ _ => fresh_iff) (fun _ _ _ h _ => step_invariant h)
      (init_invariant localtime time) acts
  refine ⟨hiff, fun hwithin => hiff.mpr ?_⟩
  exact along_of_along (fun _ _ _ => step_counted) (fun _ _ => noSpill_of_within)
    (init_counted time) hwithin

theorem run_burst (localtime : ℤ → Tm) (loop : ι) (time : ℤ) (n : ℕ) :
    ∃ s, run (step localtime) (init time) (.replicate n (.handleNewConn loop 0)) = some s ∧
      s.uid = ⟨time, Int32.ofNat n⟩ := by
  induction n with
  | zero => exact ⟨_, rfl, rfl⟩
  | succ n ih =>
      obtain ⟨s, hrun, huid⟩ := ih
      refine ⟨s.accept localtime loop 0, ?_, ?_⟩
      · rw [List.replicate_succ', run_append, hrun, Option.bind_some, run_cons]
        rfl
      · have hclock : s.clock 0 = time := by
          rw [clock, huid]
          exact Int.add_zero time
        rw [accept_uid, hclock, UID.nextSerial, huid, if_pos rfl, Int32.ofNat_add]
        rfl

/-- A minute of the clock in Greenwich. -/
def oneMinute (current : ℤ) : Tm where
  year := 2021
  mon := 1
  mday := 27
  hour := 12
  min := 0
  sec := (current % 60).toNat
  year_lt := by decide
  mon_lt := by decide
  mday_le := by decide
  hour_lt := by decide
  min_lt := by decide
  sec_le := by omega

/-- The last of 1001 accepts in one second loses its entry to the first one of the next. -/
theorem burst_takes_over : ¬ Along (step oneMinute) (Fresh oneMinute) (init 1614427200)
    (.replicate 1000 (.handleNewConn () 0) ++ [.handleNewConn () 0, .handleNewConn () 1]) := by
  intro h
  obtain ⟨s, hrun, huid⟩ := run_burst oneMinute () 1614427200 1000
  have hlast := h.right hrun
  apply (hlast.2 _ rfl).1 s.server.objects.length
  rw [entry_accept, clock, accept_uid, clock, huid]
  exact if_pos (by decide)

end SerialIds
end TinyGameServer
