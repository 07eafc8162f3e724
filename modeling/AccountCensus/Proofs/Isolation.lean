import AccountCensus.Proofs.Sharing

/-!
# Databases in memory

A client in memory finds in its table what it put there itself, whatever goes on elsewhere:
`OpensAs.after` follows what the name of its account table stands for through a history of the whole
site. There is one thing that the client does not do itself. A pool that finds its connection unused
for too long, or open for too long, closes it, and with it the database goes; from then on there is
no account table. A history in which the client comes often enough for that not to happen is
`Attended`.
-/

namespace AccountCensus.Store

/-- The command only reads. -/
def Command.isReading : Command → Bool
  | fetch | get | collect | gather | request _ => true
  | _ => false

/-- What client `c` does apart from reading. -/
def commandsOf (c : ℕ) (moves : List Move) : List Command :=
  moves.filterMap fun
    | .act d command => if d = c ∧ command.isReading = false then some command else none
    | _ => none

theorem commandsOf_cons (c : ℕ) (m : Move) (moves : List Move) :
    commandsOf c (m :: moves) = commandsOf c [m] ++ commandsOf c moves := by
  rw [commandsOf, commandsOf, commandsOf, ← List.filterMap_append]
  rfl

/-! ## What a client comes to -/

/-- A write, to whatever the name of the account table stands for. -/
def Write.on : Relation → Write → Relation
  | .table t, w => .table (w.apply t)
  | r, _ => r

theorem Write.needsDatabase (w : Write) : w.command.needsDatabase = true := by
  cases w <;> rfl

theorem foldl_on_absent (writes : List Write) : writes.foldl Write.on .absent = .absent := by
  induction writes with
  | nil => rfl
  | cons w writes ih => exact ih

/-- There is no table, or one that holds rows. -/
def Relation.Sound (r : Relation) : Prop := r = .absent ∨ ∃ t rows, r = .table t ∧ t.Holds rows

theorem Relation.Sound.on {r : Relation} (h : r.Sound) (w : Write) : (w.on r).Sound := by
  rcases h with rfl | ⟨t, rows, rfl, hrows⟩
  · exact .inl rfl
  · obtain ⟨rows', hrows'⟩ := hrows.apply w
    exact .inr ⟨w.apply t, rows', rfl, hrows'⟩

theorem Relation.Sound.foldl_on {r : Relation} (h : r.Sound) (writes : List Write) :
    (writes.foldl Write.on r).Sound := by
  induction writes generalizing r with
  | nil => exact h
  | cons w writes ih => exact ih (h.on w)

/-! ## When a client comes -/

namespace Move

/-- How long the connection of client `c` has been unused after a move. -/
def idleAfter (c idle : ℕ) : Move → ℕ
  | wait millis _ => idle + millis
  | act d command => if d = c ∧ command.needsDatabase = true then 0 else idle
  | enter .. => idle

/-- How long a connection has been open after a move. -/
def ageAfter (age : ℕ) : Move → ℕ
  | wait millis _ => age + millis
  | _ => age

end Move

/-- Client `c` comes in time, again and again, when its connection has been unused for `idle`
milliseconds and open for `age` of them. -/
def Attended (c : ℕ) : ℕ → ℕ → List Move → Prop
  | _, _, [] => True
  | idle, age, m :: moves =>
    m.idleAfter c idle ≤ idleLimit ∧ m.ageAfter age ≤ lifeLimit ∧
      Attended c (m.idleAfter c idle) (m.ageAfter age) moves

/-- A connection that has been unused for `idle` milliseconds at most, and open for `age`. -/
structure Client.Tended (x : Client) (now idle age : ℕ) : Prop where
  connected : x.connected = true
  used : now ≤ x.usedAt + idle
  opened : now ≤ x.openedAt + age

theorem Client.Tended.not_old {x : Client} {now idle age : ℕ} (h : x.Tended now idle age)
    (hage : age ≤ lifeLimit) : x.isOld now = false := by
  have := h.opened
  simp only [Client.isOld, Bool.and_eq_false_iff, decide_eq_false_iff_not]
  exact .inr (by omega)

theorem Client.Tended.not_idle {x : Client} {now idle age : ℕ} (h : x.Tended now idle age)
    (hidle : idle ≤ idleLimit) : x.isIdle now = false := by
  have := h.used
  simp only [Client.isIdle, Bool.and_eq_false_iff, decide_eq_false_iff_not]
  exact .inr (by omega)

/-- A client in its hour of need has a connection that was just used. -/
theorem Client.Tended.inUse {x : Client} {now idle age : ℕ} (h : x.Tended now idle age)
    (hage : age ≤ lifeLimit) : (x.inUse now).Tended now 0 age := by
  refine ⟨rfl, le_rfl, ?_⟩
  have hopened : (x.inUse now).openedAt = x.openedAt := by
    simp [Client.inUse, h.connected, h.not_old hage]
  rw [hopened]
  exact h.opened

namespace Site

/-! ## A client in memory -/

/-- Client `c` has opened a database in memory, in which the name of the account table stands for
`r`. There is no table once its connection was closed. -/
structure OpensAs (s : Site) (c : ℕ) (r : Relation) (x : Client) : Prop where
  client : s.clients[c]? = some x
  inMemory : x.path = Path.inMemory
  opened : x.link = .opened
  place : ∃ d : Database, s.placeOf x.name = .database d ∧ d.relation = r
  used : x.usedAt ≤ s.time
  lost : x.connected = false → r = .absent

section OpensAs

variable {s s' : Site} {c n : ℕ} {r : Relation} {x y : Client}

/-- The same client in another state of its connection. -/
theorem OpensAs.setClient (h : s.OpensAs c r x) (hpath : y.path = x.path) (hname : y.name = x.name)
    (hlink : y.link = x.link) (hused : y.usedAt ≤ s.time)
    (hlost : y.connected = false → r = .absent) : (s.setClient c y).OpensAs c r y :=
  ⟨clients_setClient h.client y, hpath.trans h.inMemory, hlink.trans h.opened, hname ▸ h.place,
    hused, hlost⟩

/-! ### What others do -/

/-- **What another client does is not seen.** -/
theorem OpensAs.other {e : ℕ} (h : s.OpensAs c r x) (hs : s.Apart n) (hkeeps : Keeps s e y s')
    (he : e ≠ c) : s'.OpensAs c r x := by
  have hname : x.name ≠ y.name := fun hsame =>
    he (hs.alone c e x y h.client hkeeps.self hsame h.inMemory).symm
  refine ⟨(hkeeps.clients c he.symm).trans h.client, h.inMemory, h.opened, ?_, ?_, h.lost⟩
  · rw [hkeeps.placeOf _ hname]
    exact h.place
  · rw [hkeeps.time]
    exact h.used

/-- Nor is it seen when somebody else opens a path. -/
theorem OpensAs.connect {path : String} {cs : List Client} (h : s.OpensAs c r x) (hs : s.Apart n)
    (hn : n < UInt64.size) (hpath : path ≠ Path.inMemory → Plain path)
    (hconnect : Connects s path s' y) (hcs : cs[c]? = s.clients[c]?) :
    OpensAs { s' with clients := cs } c r x := by
  refine ⟨hcs.trans h.client, h.inMemory, h.opened, ?_, ?_, h.lost⟩
  · show ∃ d : Database, s'.placeOf x.name = .database d ∧ d.relation = r
    rw [hconnect.placeOf _ (hs.name_ne_nameFor hn hpath h.client h.inMemory)]
    exact h.place
  · show x.usedAt ≤ s'.time
    rw [hconnect.time]
    exact h.used

theorem OpensAs.enter (h : s.OpensAs c r x) (hs : s.Apart n) (hn : n < UInt64.size) {path : String}
    (hpath : path ≠ Path.inMemory → Plain path) (found : Place) :
    (s.enter path found).1.OpensAs c r x := by
  have hdiscover : (s.discover path found).OpensAs c r x := by
    have hplace : ∃ d : Database, (s.discover path found).placeOf x.name = .database d ∧
        d.relation = r := by
      obtain ⟨k, -, hname⟩ := hs.made c x h.client h.inMemory
      rw [placeOf_discover found fun hmemory hsame =>
        (hpath hmemory).ne_memoryName _ k (hsame.symm.trans hname)]
      exact h.place
    rw [discover_eq] at hplace ⊢
    exact ⟨h.client, h.inMemory, h.opened, hplace, h.used, h.lost⟩
  rw [enter_eq]
  refine hdiscover.connect (hs.discover hpath found) hn hpath (connects _ path) ?_
  rw [discover_eq]
  exact List.getElem?_append_left (List.getElem?_eq_some_iff.mp h.client).1

theorem OpensAs.reopen {e : ℕ} (h : s.OpensAs c r x) (hs : s.Apart n) (hn : n < UInt64.size)
    (hy : s.clients[e]? = some y) (he : e ≠ c) : (s.perform e .reopen).1.OpensAs c r x := by
  have hconnect := connects (s.release e y) y.path
  have hrelease := keeps_release hy
  rw [perform_reopen hy, Site.setClient, hconnect.clients]
  exact (h.other hs hrelease he).connect (hrelease.apart hs) hn (hs.plain_path hy) hconnect
    (List.getElem?_set_ne he)

/-! ### Its own commands -/

/-- Nobody else is connected to the database. -/
theorem OpensAs.not_isHeld (h : s.OpensAs c r x) (hs : s.Apart n) :
    (s.setClient c { x with connected := false }).isHeld x.name = false := by
  have hset := (keeps_refl h.client).setClient (y := { x with connected := false }) rfl rfl
  rw [isHeld, List.any_eq_false]
  intro z hz hheld
  obtain ⟨d, hd⟩ := List.getElem?_of_mem hz
  simp only [Bool.and_eq_true, beq_iff_eq] at hheld
  obtain ⟨z', hz', -, hname⟩ := hset.origin hd
  obtain rfl := hs.alone c d x z' h.client hz' (hheld.2.symm.trans hname) h.inMemory
  have hself := clients_setClient h.client { x with connected := false }
  obtain rfl := Option.some.inj (hself.symm.trans hd)
  exact Bool.false_ne_true hheld.1

/-- **The database goes with its connection.** -/
theorem OpensAs.release (h : s.OpensAs c r x) (hs : s.Apart n) :
    (s.release c x).OpensAs c .absent { x with connected := false } := by
  have hdue : (decide (x.path = Path.inMemory) &&
      !(s.setClient c { x with connected := false }).isHeld x.name) = true := by
    rw [h.not_isHeld hs, decide_eq_true h.inMemory]
    rfl
  have hgone : s.release c x = (s.setClient c { x with connected := false }).setPlace x.name
      (.database {}) := if_pos hdue
  rw [hgone]
  exact ⟨clients_setClient h.client _, h.inMemory, h.opened, ⟨{}, placeOf_setPlace .., rfl⟩, h.used,
    fun _ => rfl⟩

/-- A client takes its connection; one that is too old is closed first. -/
theorem OpensAs.acquire (h : s.OpensAs c r x) (hs : s.Apart n) :
    (s.acquire c x).1.OpensAs c (if x.isOld s.time then .absent else r) (x.inUse s.time) := by
  have hnow : ∀ {s' : Site}, s'.time = s.time → (x.inUse s.time).usedAt ≤ s'.time :=
    fun htime => htime ▸ le_rfl
  rw [acquire_of_opened h.client h.opened]
  split
  · have hrelease := h.release hs
    exact hrelease.setClient rfl rfl rfl (hnow (keeps_release h.client).time) nofun
  · exact h.setClient rfl rfl rfl (hnow rfl) nofun

/-- A command that needs the database is carried out with the connection in hand. -/
theorem OpensAs.perform (h : s.OpensAs c r x) {command : Command}
    (hneeds : command.needsDatabase = true) :
    s.perform c command = (s.acquire c x).1.carryOut c (x.inUse s.time) command := by
  simp only [Site.perform, h.client, h.opened, hneeds, if_true]
  rw [acquire_of_opened h.client h.opened]

theorem OpensAs.perform_idle (h : s.OpensAs c r x) {command : Command}
    (hneeds : command.needsDatabase = false) :
    s.perform c command = s.carryOut c x command := by
  simp only [Site.perform, h.client, h.opened, hneeds]
  rfl

theorem OpensAs.databaseOf (h : s.OpensAs c r x) :
    ∃ d : Database, s.databaseOf x = .ok d ∧ s.placeOf x.name = .database d ∧ d.relation = r := by
  obtain ⟨d, hd, hr⟩ := h.place
  exact ⟨d, by simp only [Site.databaseOf, h.opened, if_true, hd], hd, hr⟩

theorem OpensAs.fetch (h : s.OpensAs c r x) : s.fetch x = r.accounts.mapError .access := by
  obtain ⟨d, hd, -, rfl⟩ := h.databaseOf
  simp only [Site.fetch, hd, bind, Except.bind]

theorem OpensAs.census (h : s.OpensAs c r x) (driver : Census.Driver) :
    ∃ metrics, (s.census c x driver).1.OpensAs c r { x with metrics } :=
  ⟨_, h.setClient rfl rfl rfl h.used h.lost⟩

/-- Reading changes no more than the gauges. -/
theorem OpensAs.reading (h : s.OpensAs c r x) {command : Command}
    (hreads : command.isReading = true) :
    ∃ metrics, (s.carryOut c x command).1.OpensAs c r { x with metrics } := by
  cases command with
  | fetch | gather => exact ⟨x.metrics, h⟩
  | get => exact h.census .call
  | collect => exact h.census .report
  | request req =>
      simp only [carryOut, request]
      split
      · exact ⟨x.metrics, h⟩
      · exact ⟨x.metrics, h⟩
      · exact ⟨x.metrics, h⟩
      · exact h.census .report
  | _ => cases hreads

section Change

variable {α : Type} {f : Relation → Except Refusal (Relation × α)}

theorem OpensAs.change_refused (h : s.OpensAs c r x) {refusal : Refusal}
    (hf : f r = .error refusal) : s.change x f = (s, .error (.access (.refused refusal))) := by
  obtain ⟨d, hd, -, rfl⟩ := h.databaseOf
  simp only [Site.change, hd, hf]

theorem OpensAs.change (h : s.OpensAs c r x) (hconnected : x.connected = true) {r' : Relation}
    {answer : α} (hf : f r = .ok (r', answer)) :
    (s.change x f).1.OpensAs c r' x ∧ (s.change x f).2 = .ok answer := by
  obtain ⟨d, hd, -, rfl⟩ := h.databaseOf
  simp only [Site.change, hd, hf, and_true]
  refine ⟨h.client, h.inMemory, h.opened, ⟨_, placeOf_setPlace .., rfl⟩, h.used, fun hlost => ?_⟩
  rw [hconnected] at hlost
  cases hlost

end Change

/-! ### Its writes -/

section Writes

variable {t : Table} {rows : List (Int × Account)} (ht : t.Holds rows) (a : Account)
include ht

theorem change_insert : Relation.change (·.insert none (.ofString a.login) (.ofString a.email))
    (.table t) = if t.lastId < maxId then .ok (.table ((Write.add a).apply t), t.lastId + 1)
      else .error .noIdLeft := by
  simp only [Relation.change, ht.insert]
  split <;> rfl

theorem change_update (id : Int) :
    Relation.change (·.update id (.ofString a.login) (.ofString a.email)) (.table t) =
      .ok (.table ((Write.edit id a).apply t), if t.hasId id then 1 else 0) := by
  simp only [Relation.change, ht.update]
  rfl

end Writes

/-- **A write of the client is a write to what it comes to.** -/
theorem OpensAs.write (h : s.OpensAs c r x) (hconnected : x.connected = true) (hr : r.Sound)
    (w : Write) : (s.carryOut c x w.command).1.OpensAs c (w.on r) x := by
  rcases hr with rfl | ⟨t, rows, rfl, ht⟩
  · -- there is nothing to write to
    have hrefused : ∀ {α : Type} (f : Table → Except Refusal (Table × α)),
        s.change x (Relation.change f) = (s, .error (.access (.refused .noAccountTable))) :=
      fun f => h.change_refused rfl
    cases w with
    | add a => simpa only [Write.command, carryOut, quietly, hrefused, Write.on] using h
    | edit id a => simpa only [Write.command, carryOut, quietly, hrefused, Write.on] using h
    | remove id => simpa only [Write.command, carryOut, quietly, hrefused, Write.on] using h
  · cases w with
    | add a =>
        have hinsert := change_insert ht a
        by_cases hlt : t.lastId < maxId
        · rw [if_pos hlt] at hinsert
          exact (h.change hconnected hinsert).1
        · rw [if_neg hlt] at hinsert
          simpa only [Write.command, carryOut, quietly, h.change_refused hinsert, Write.on,
            Write.apply, if_neg hlt] using h
    | edit id a => exact (h.change hconnected (change_update ht a id)).1
    | remove id =>
        have hdelete : Relation.change (fun t => .ok (t.delete id)) (.table t) =
            .ok (.table ((Write.remove id).apply t), (t.delete id).2) := rfl
        exact (h.change hconnected hdelete).1

/-- The number that a new row gets, or that there is none left. -/
theorem OpensAs.insert {t : Table} {rows : List (Int × Account)} (h : s.OpensAs c (.table t) x)
    (hconnected : x.connected = true) (ht : t.Holds rows) (a : Account) :
    (s.carryOut c x (Write.add a).command).2.2 =
      .inserted (if t.lastId < maxId then .ok (t.lastId + 1)
        else .error (.access (.refused .noIdLeft))) := by
  have hinsert := change_insert ht a
  by_cases hlt : t.lastId < maxId
  · rw [if_pos hlt] at hinsert ⊢
    exact congrArg Answer.inserted (h.change hconnected hinsert).2
  · rw [if_neg hlt] at hinsert ⊢
    simp only [Write.command, carryOut, quietly, h.change_refused hinsert]

theorem time_enter (s : Site) (path : String) (found : Place) :
    (s.enter path found).1.time = s.time := by
  rw [enter_eq]
  show ((s.discover path found).connect path).1.time = s.time
  rw [(connects _ path).time, discover_eq]

theorem time_perform (s : Site) (c : ℕ) (command : Command) :
    (s.perform c command).1.time = s.time := by
  rcases perform_cases s c command with hsame | ⟨x, hx, hkeeps | rfl⟩
  · rw [hsame]
  · exact hkeeps.time
  · rw [perform_reopen hx]
    exact ((connects ..).time).trans (keeps_release hx).time

theorem time_lapse (s : Site) (c : ℕ) : (s.lapse c).time = s.time := by
  rcases lapse_cases s c with hsame | ⟨x, hkeeps⟩
  · rw [hsame]
  · exact hkeeps.time

theorem time_wait (s : Site) (millis : ℕ) (pools : List ℕ) :
    (s.wait millis pools).time = s.time + millis :=
  List.foldlRecOn pools Site.lapse (motive := fun s' => s'.time = s.time + millis) rfl
    fun s' h c _ => (time_lapse s' c).trans h

theorem OpensAs.lapse_of_due (h : s.OpensAs c r x) (hs : s.Apart n)
    (hdue : (x.isIdle s.time || x.isOld s.time) = true) :
    (s.lapse c).OpensAs c .absent { x with connected := false } := by
  simp only [lapse, h.client, if_pos hdue]
  exact h.release hs

/-- **Pools look at their connections.** That of the client closes its own if it is due. -/
theorem OpensAs.lapses (h : s.OpensAs c r x) (hs : s.Apart n) (pools : List ℕ) :
    ∃ r' y, (pools.foldl Site.lapse s).OpensAs c r' y ∧ (r' = r ∨ r' = .absent) ∧
      ((x.isIdle s.time || x.isOld s.time) = false → r' = r ∧ y = x) ∧
      (c ∈ pools → (x.connected = true → x.isIdle s.time = true) → r' = .absent) := by
  induction pools generalizing s r x with
  | nil => exact ⟨r, x, h, .inl rfl, fun _ => ⟨rfl, rfl⟩, nofun⟩
  | cons e pools ih =>
      have htime := time_lapse s e
      by_cases he : e = c
      · subst he
        cases hdue : x.isIdle s.time || x.isOld s.time with
        | true =>
            obtain ⟨r', y, h', hr', -, -⟩ := ih (h.lapse_of_due hs hdue) (hs.lapse e)
            have hr'' : r' = .absent := hr'.elim id id
            exact ⟨r', y, h', .inr hr'', nofun, fun _ _ => hr''⟩
        | false =>
            have hsame : s.lapse e = s := by
              simp only [lapse, h.client, hdue]
              rfl
            obtain ⟨r', y, h', hr', hkept, -⟩ := ih (hsame.symm ▸ h) (hs.lapse e)
            obtain ⟨rfl, rfl⟩ := hkept (htime.symm ▸ hdue)
            refine ⟨r', y, h', .inl rfl, fun _ => ⟨rfl, rfl⟩, fun _ hidle => ?_⟩
            cases hconnected : y.connected with
            | false => exact h.lost hconnected
            | true =>
                rw [hidle hconnected] at hdue
                cases hdue
      · have hkept : (s.lapse e).OpensAs c r x := by
          rcases lapse_cases s e with hsame | ⟨y, hkeeps⟩
          · rwa [hsame]
          · exact h.other hs hkeeps he
        obtain ⟨r', y, h', hr', hsame, hgone⟩ := ih hkept (hs.lapse e)
        rw [htime] at hsame hgone
        exact ⟨r', y, h', hr', hsame, fun hmem =>
          hgone ((List.mem_cons.mp hmem).resolve_left (Ne.symm he))⟩

theorem OpensAs.advance (h : s.OpensAs c r x) (millis : ℕ) :
    OpensAs { s with time := s.time + millis } c r x :=
  ⟨h.client, h.inMemory, h.opened, h.place, h.used.trans (Nat.le_add_right ..), h.lost⟩

/-- Time passes without a look at the connection of a client, or with one. -/
theorem OpensAs.wait (h : s.OpensAs c r x) (hs : s.Apart n) (millis : ℕ) (pools : List ℕ) :
    ∃ r' y, (s.wait millis pools).OpensAs c r' y ∧ (r' = r ∨ r' = .absent) ∧
      ∀ idle age, x.Tended s.time idle age → idle + millis ≤ idleLimit → age + millis ≤ lifeLimit →
        r' = r ∧ y.Tended (s.time + millis) (idle + millis) (age + millis) := by
  obtain ⟨r', y, h', hr', hkept, -⟩ := (h.advance millis).lapses (hs.advance millis) pools
  refine ⟨r', y, h', hr', fun idle age htended hidle hage => ?_⟩
  have hlater : x.Tended (s.time + millis) (idle + millis) (age + millis) := by
    obtain ⟨hconnected, hused, hopened⟩ := htended
    exact ⟨hconnected, by omega, by omega⟩
  have hnot : (x.isIdle (s.time + millis) || x.isOld (s.time + millis)) = false := by
    rw [hlater.not_idle hidle, hlater.not_old hage]
    rfl
  obtain ⟨rfl, rfl⟩ := hkept hnot
  exact ⟨rfl, hlater⟩

/-! ### A whole history -/

/-- A command with which a client in memory reads leaves what it comes to, unless the database has
just gone. -/
theorem OpensAs.own_reading (h : s.OpensAs c r x) (hs : s.Apart n) {command : Command}
    (hreads : command.isReading = true) :
    ∃ r' y, (s.perform c command).1.OpensAs c r' y ∧ (r' = r ∨ r' = .absent) ∧
      ∀ idle age, x.Tended s.time idle age → age ≤ lifeLimit → r' = r ∧
        y.Tended s.time ((Move.act c command).idleAfter c idle) age := by
  cases hneeds : command.needsDatabase with
  | true =>
      rw [h.perform hneeds]
      obtain ⟨metrics, hread⟩ := (h.acquire hs).reading hreads
      refine ⟨_, _, hread, ?_, fun idle age htended hage => ?_⟩
      · split
        · exact .inr rfl
        · exact .inl rfl
      · obtain ⟨hconnected, hused, hopened⟩ := htended.inUse hage
        refine ⟨if_neg (by simp [htended.not_old hage]), hconnected, ?_, hopened⟩
        simpa only [Move.idleAfter, hneeds, and_self, if_true] using hused
  | false =>
      rw [h.perform_idle hneeds]
      obtain ⟨metrics, hread⟩ := h.reading hreads
      refine ⟨_, _, hread, .inl rfl, fun idle age htended _ => ?_⟩
      obtain ⟨hconnected, hused, hopened⟩ := htended
      refine ⟨rfl, hconnected, ?_, hopened⟩
      simpa [Move.idleAfter, hneeds] using hused

/-- A write of a client in memory reaches what it comes to, unless the database has just gone. -/
theorem OpensAs.own_write (h : s.OpensAs c r x) (hs : s.Apart n) (hr : r.Sound) (w : Write) :
    ∃ r' y, (s.perform c w.command).1.OpensAs c r' y ∧ (r' = w.on r ∨ r' = .absent) ∧
      ∀ idle age, x.Tended s.time idle age → age ≤ lifeLimit → r' = w.on r ∧
        y.Tended s.time ((Move.act c w.command).idleAfter c idle) age := by
  have hneeds := w.needsDatabase
  have hsound : (if x.isOld s.time then Relation.absent else r).Sound := by
    split
    · exact .inl rfl
    · exact hr
  rw [h.perform hneeds]
  refine ⟨_, _, (h.acquire hs).write rfl hsound w, ?_, fun idle age htended hage => ?_⟩
  · split
    · exact .inr rfl
    · exact .inl rfl
  · obtain ⟨hconnected, hused, hopened⟩ := htended.inUse hage
    refine ⟨?_, hconnected, ?_, hopened⟩
    · rw [if_neg (by simp [htended.not_old hage])]
    · simpa only [Move.idleAfter, hneeds, and_self, if_true] using hused

/-- The commands of the client itself. -/
theorem OpensAs.own (h : s.OpensAs c r x) (hs : s.Apart n) (hr : r.Sound) {command : Command}
    {writes : List Write} (hwrites : commandsOf c [.act c command] = writes.map Write.command) :
    ∃ r' y, (s.perform c command).1.OpensAs c r' y ∧
      (r' = writes.foldl Write.on r ∨ r' = .absent) ∧
      ∀ idle age, x.Tended s.time idle age → age ≤ lifeLimit → r' = writes.foldl Write.on r ∧
        y.Tended s.time ((Move.act c command).idleAfter c idle) age := by
  by_cases hreads : command.isReading = true
  · have hnone : commandsOf c [.act c command] = [] :=
      List.filterMap_cons_none (if_neg (by simp [hreads]))
    obtain rfl : writes = [] := List.map_eq_nil_iff.mp (hwrites.symm.trans hnone)
    exact h.own_reading hs hreads
  · have hone : commandsOf c [.act c command] = [command] :=
      List.filterMap_cons_some (if_pos ⟨rfl, by simpa using hreads⟩)
    rw [hone] at hwrites
    obtain ⟨w, rest, rfl, rfl, hrest⟩ := List.map_eq_cons_iff.mp hwrites.symm
    obtain rfl := List.map_eq_nil_iff.mp hrest
    exact h.own_write hs hr w

/-- **What the client comes to after one move**: what it makes of it, or nothing. It is not nothing
if the client comes in time. -/
theorem OpensAs.move (h : s.OpensAs c r x) (hs : s.Apart n) (hr : r.Sound) {m : Move}
    (hn : m.isOpening = true → n < UInt64.size) (hplain : m.IsPlain) {writes : List Write}
    (hwrites : commandsOf c [m] = writes.map Write.command) :
    ∃ r' y, (s.move m).OpensAs c r' y ∧ (r' = writes.foldl Write.on r ∨ r' = .absent) ∧
      ∀ idle age, x.Tended s.time idle age → m.idleAfter c idle ≤ idleLimit →
        m.ageAfter age ≤ lifeLimit → r' = writes.foldl Write.on r ∧
          y.Tended (s.move m).time (m.idleAfter c idle) (m.ageAfter age) := by
  cases m with
  | enter path found =>
      obtain rfl : writes = [] := List.map_eq_nil_iff.mp hwrites.symm
      refine ⟨r, x, h.enter hs (hn rfl) (fun _ => hplain) found, .inl rfl,
        fun idle age htended _ _ => ⟨rfl, ?_⟩⟩
      show x.Tended (s.enter path found).1.time idle age
      rwa [time_enter]
  | wait millis pools =>
      obtain rfl : writes = [] := List.map_eq_nil_iff.mp hwrites.symm
      obtain ⟨r', y, h', hr', htended⟩ := h.wait hs millis pools
      refine ⟨r', y, h', hr', fun idle age hx hidle hage => ?_⟩
      show r' = r ∧ y.Tended (s.wait millis pools).time (idle + millis) (age + millis)
      rw [time_wait]
      exact htended idle age hx hidle hage
  | act e command =>
      by_cases he : e = c
      · subst he
        obtain ⟨r', y, h', hr', htended⟩ := h.own hs hr hwrites
        refine ⟨r', y, h', hr', fun idle age hx _ hage => ?_⟩
        show r' = _ ∧ y.Tended (s.perform e command).1.time _ age
        rw [time_perform]
        exact htended idle age hx hage
      · have hnone : commandsOf c [.act e command] = [] :=
          List.filterMap_cons_none (if_neg fun hc => he hc.1)
        obtain rfl : writes = [] := List.map_eq_nil_iff.mp (hwrites.symm.trans hnone)
        have hkept : (s.perform e command).1.OpensAs c r x := by
          rcases perform_cases s e command with hsame | ⟨y, hy, hkeeps | rfl⟩
          · rwa [hsame]
          · exact h.other hs hkeeps he
          · exact h.reopen hs (hn rfl) hy he
        refine ⟨r, x, hkept, .inl rfl, fun idle age htended _ _ => ⟨rfl, ?_⟩⟩
        show x.Tended (s.perform e command).1.time _ age
        rw [time_perform]
        simpa only [Move.idleAfter, he, false_and, if_false] using htended

/-- **What becomes of a database in memory**: what its own client makes of it, or nothing. It is not
nothing if the client always comes in time. -/
theorem OpensAs.after (h : s.OpensAs c r x) (hs : s.Apart n) (hr : r.Sound) {moves : List Move}
    (hn : n + openings moves ≤ UInt64.size) (hplain : ∀ m ∈ moves, m.IsPlain) {writes : List Write}
    (hwrites : commandsOf c moves = writes.map Write.command) :
    ∃ r' y, (s.after moves).OpensAs c r' y ∧ (r' = writes.foldl Write.on r ∨ r' = .absent) ∧
      ∀ idle age, x.Tended s.time idle age → age ≤ lifeLimit → Attended c idle age moves →
        r' = writes.foldl Write.on r ∧
          ∃ idle', ∃ age' ≤ lifeLimit, y.Tended (s.after moves).time idle' age' := by
  induction moves generalizing s r x n writes with
  | nil =>
      obtain rfl : writes = [] := List.map_eq_nil_iff.mp hwrites.symm
      exact ⟨r, x, h, .inl rfl, fun idle age htended hage _ => ⟨rfl, idle, age, hage, htended⟩⟩
  | cons m moves ih =>
      have hcount : openings (m :: moves) = openings moves + if m.isOpening then 1 else 0 :=
        List.countP_cons ..
      have hopening : m.isOpening = true → n < UInt64.size := fun hm => by
        rw [hcount, if_pos hm] at hn
        omega
      have hm := hplain m List.mem_cons_self
      rw [commandsOf_cons] at hwrites
      obtain ⟨first, rest, rfl, hfirst, hrest⟩ := List.append_eq_map_iff.mp hwrites
      obtain ⟨r₁, x₁, h₁, hr₁, htended₁⟩ := h.move hs hr hopening hm hfirst.symm
      obtain ⟨k, hk, hs₁⟩ := hs.move hopening hm
      have hsound : r₁.Sound := by
        rcases hr₁ with rfl | rfl
        · exact hr.foldl_on first
        · exact .inl rfl
      obtain ⟨r', y, h', hr', htended'⟩ := ih h₁ hs₁ hsound (by omega)
        (fun m' hm' => hplain m' (List.mem_cons_of_mem _ hm')) hrest.symm
      refine ⟨r', y, h', ?_, fun idle age htended hage hattended => ?_⟩
      · rw [List.foldl_append]
        rcases hr₁ with rfl | rfl
        · exact hr'
        · rw [foldl_on_absent, or_self] at hr'
          exact .inr hr'
      · obtain ⟨hidle, hage', hattended⟩ := hattended
        obtain ⟨rfl, hx₁⟩ := htended₁ idle age htended hidle hage'
        rw [List.foldl_append]
        exact htended' _ _ hx₁ hage' hattended

end OpensAs

/-! ## Arrival -/

end Site

end AccountCensus.Store
