import AccountCensus.Proofs.Rows
import Mathlib.Data.Nat.Basic
import Mathlib.Order.Basic

/-!
# Who shares a database

Clients share a database if they open it by the same name. A name that is made up for a database in
memory is nobody else's: the counter has never stood there before (`memoryName_injective`), and no
path looks like it (`Plain.ne_memoryName`). `Site.Apart` says of a site that it is so, and
`Apart.after` that it stays so whatever happens there, unless the counter comes round. What a client
does, and what its pool does, is done to itself and under its own name (`Keeps`).
-/

namespace AccountCensus.Store

/-! ## Names -/

/-- **A process makes up no name twice.** -/
theorem memoryName_injective {process n m : ℕ}
    (h : memoryName process n = memoryName process m) : n = m := by
  unfold memoryName at h
  have hnumbers : toString n = toString m :=
    (String.append_right_inj _).mp ((String.append_left_inj _).mp h)
  have hdigits : Nat.toDigits 10 n = Nat.toDigits 10 m := by
    have hchars := congrArg String.toList hnumbers
    rwa [Nat.toString_eq_ofList_toDigits, Nat.toString_eq_ofList_toDigits, String.toList_ofList,
      String.toList_ofList] at hchars
  calc
    n = Nat.ofDigitChars 10 (Nat.toDigits 10 n) 0 := Nat.ofDigitChars_ten_toDigits.symm
    _ = Nat.ofDigitChars 10 (Nat.toDigits 10 m) 0 := by rw [hdigits]
    _ = m := Nat.ofDigitChars_ten_toDigits

/-- A path that is no address to the engine. -/
def Plain (path : String) : Prop := path.startsWith "file:" = false

instance (path : String) : Decidable (Plain path) :=
  inferInstanceAs (Decidable (path.startsWith "file:" = false))

theorem Plain.ne_memoryName {path : String} (h : Plain path) (process n : ℕ) :
    path ≠ memoryName process n := by
  rintro rfl
  rw [Plain, String.startsWith_string_eq_false_iff] at h
  refine h ?_
  -- the text in front of the numbers begins so
  have hfront : "file:".toList <+: "file:loginstats-memdb-".toList := by
    decide
  have happend : ∀ {s : String} (t : String), "file:".toList <+: s.toList →
      "file:".toList <+: (s ++ t).toList := by
    intro s t hs
    rw [String.toList_append]
    exact hs.trans (List.prefix_append ..)
  unfold memoryName
  exact happend _ (happend _ (happend _ (happend _ hfront)))

/-! ## Histories of a site -/

/-- What can happen at a site: a new client opens a path, a client gives a command, or time passes
and some pools look at their connections. -/
inductive Move where
  | enter (path : String) (found : Place)
  | act (client : ℕ) (command : Command)
  | wait (millis : ℕ) (pools : List ℕ)

namespace Move

def isEnter : Move → Bool
  | enter .. => true
  | _ => false

/-- A path is opened, for the first time or again. -/
def isOpening : Move → Bool
  | enter .. => true
  | act _ .reopen => true
  | _ => false

/-- No path is opened that is an address. -/
def IsPlain : Move → Prop
  | enter path _ => Plain path
  | _ => True

end Move

/-- The number of clients that have come, which is the number that the next one gets. -/
def entries (moves : List Move) : ℕ := moves.countP Move.isEnter

/-- How often a path is opened. No more names can have been made up. -/
def openings (moves : List Move) : ℕ := moves.countP Move.isOpening

namespace Site

def move (s : Site) : Move → Site
  | .enter path found => (s.enter path found).1
  | .act c command => (s.perform c command).1
  | .wait millis pools => s.wait millis pools

/-- The site after some moves. -/
def after (s : Site) (moves : List Move) : Site := moves.foldl move s

section Places

variable (s : Site) (name : String) (place : Place)

@[simp] theorem placeOf_setPlace : (s.setPlace name place).placeOf name = place := by
  simp [placeOf, setPlace]

theorem placeOf_setPlace_of_ne {other : String} (h : other ≠ name) :
    (s.setPlace name place).placeOf other = s.placeOf other := by
  have hkey : (other == name) = false := beq_false_of_ne h
  simp only [placeOf, setPlace, List.lookup_cons, hkey]

end Places

/-- A client that is put in a place is there. -/
theorem clients_setClient {s : Site} {c : ℕ} {x : Client} (hx : s.clients[c]? = some x)
    (y : Client) : (s.setClient c y).clients[c]? = some y :=
  List.getElem?_set_self (List.getElem?_eq_some_iff.mp hx).1

/-! ## What a client leaves alone -/

/-- Client `c` is `x`, and a site differs from `s` at most in this client, which keeps its path and
its name, and in what is under that name. -/
structure Keeps (s : Site) (c : ℕ) (x : Client) (s' : Site) : Prop where
  process : s'.process = s.process
  counter : s'.counter = s.counter
  time : s'.time = s.time
  placeOf : ∀ name ≠ x.name, s'.placeOf name = s.placeOf name
  length : s'.clients.length = s.clients.length
  clients : ∀ d ≠ c, s'.clients[d]? = s.clients[d]?
  self : s.clients[c]? = some x
  kept : ∃ y, s'.clients[c]? = some y ∧ y.path = x.path ∧ y.name = x.name

section Keeps

variable {s s' s'' : Site} {c : ℕ} {x y : Client}

theorem Keeps.trans (h : Keeps s c x s') (h' : Keeps s' c y s'') : Keeps s c x s'' := by
  obtain ⟨z, hz, hpath, hname⟩ := h.kept
  obtain rfl : z = y := Option.some.inj (hz.symm.trans h'.self)
  obtain ⟨z', hz', hpath', hname'⟩ := h'.kept
  refine ⟨h'.process.trans h.process, h'.counter.trans h.counter, h'.time.trans h.time,
    fun name hne => ?_, h'.length.trans h.length,
    fun d hd => (h'.clients d hd).trans (h.clients d hd), h.self,
    z', hz', hpath'.trans hpath, hname'.trans hname⟩
  rw [h'.placeOf name (hname ▸ hne), h.placeOf name hne]

/-- A client that was kept is where it was. -/
theorem Keeps.origin (h : Keeps s c x s') {d : ℕ} (hy : s'.clients[d]? = some y) :
    ∃ z, s.clients[d]? = some z ∧ y.path = z.path ∧ y.name = z.name := by
  by_cases hd : d = c
  · subst hd
    obtain ⟨z, hz, hpath, hname⟩ := h.kept
    obtain rfl : y = z := Option.some.inj (hy.symm.trans hz)
    exact ⟨x, h.self, hpath, hname⟩
  · exact ⟨y, (h.clients d hd).symm.trans hy, rfl, rfl⟩

theorem Keeps.setClient (h : Keeps s c x s') (hpath : y.path = x.path) (hname : y.name = x.name) :
    Keeps s c x (s'.setClient c y) := by
  obtain ⟨z, hz, -, -⟩ := h.kept
  exact ⟨h.process, h.counter, h.time, h.placeOf, List.length_set.trans h.length,
    fun d hd => (List.getElem?_set_ne (Ne.symm hd)).trans (h.clients d hd), h.self, y,
    clients_setClient hz y, hpath, hname⟩

variable (hx : s.clients[c]? = some x)
include hx

theorem keeps_refl : Keeps s c x s :=
  ⟨rfl, rfl, rfl, fun _ _ => rfl, rfl, fun _ _ => rfl, hx, x, hx, rfl, rfl⟩

theorem keeps_setPlace (place : Place) : Keeps s c x (s.setPlace x.name place) :=
  ⟨rfl, rfl, rfl, fun _ hne => s.placeOf_setPlace_of_ne x.name place hne, rfl, fun _ _ => rfl, hx,
    x, hx, rfl, rfl⟩

theorem keeps_release : Keeps s c x (s.release c x) := by
  have hlet := (keeps_refl hx).setClient (y := { x with connected := false }) rfl rfl
  obtain ⟨y, hy, -, hname⟩ := hlet.kept
  have hgone : Keeps (s.setClient c { x with connected := false }) c y
      ((s.setClient c { x with connected := false }).setPlace x.name (.database {})) :=
    hname ▸ keeps_setPlace hy (.database {})
  unfold release
  dsimp only
  split
  · exact hlet.trans hgone
  · exact hlet

/-- A client that takes its connection is the same with that in its hands. -/
theorem acquire_of_opened (hopened : x.link = .opened) : s.acquire c x =
    ((if x.isOld s.time then s.release c x else s).setClient c (x.inUse s.time),
      x.inUse s.time) := by
  have htime : (if x.isOld s.time then s.release c x else s).time = s.time := by
    split
    · exact (keeps_release hx).time
    · rfl
  simp only [acquire, if_pos hopened, htime]

theorem keeps_acquire : Keeps s c x (s.acquire c x).1 ∧
    (s.acquire c x).1.clients[c]? = some (s.acquire c x).2 := by
  by_cases hopened : x.link = .opened
  · have hlet : Keeps s c x (if x.isOld s.time then s.release c x else s) := by
      split
      · exact keeps_release hx
      · exact keeps_refl hx
    obtain ⟨z, hz, -, -⟩ := hlet.kept
    rw [acquire_of_opened hx hopened]
    exact ⟨hlet.setClient rfl rfl, clients_setClient hz _⟩
  · simp only [acquire, if_neg hopened]
    exact ⟨keeps_refl hx, hx⟩

theorem keeps_change {α : Type} (f : Relation → Except Refusal (Relation × α)) :
    Keeps s c x (s.change x f).1 := by
  unfold change
  split
  · exact keeps_refl hx
  · split
    · exact keeps_refl hx
    · exact keeps_setPlace hx _

theorem keeps_census (driver : Census.Driver) : Keeps s c x (s.census c x driver).1 :=
  (keeps_refl hx).setClient rfl rfl

theorem keeps_request (r : Http.Request) : Keeps s c x (s.request c x r).1 := by
  unfold request
  split
  · exact keeps_refl hx
  · exact keeps_refl hx
  · exact keeps_refl hx
  · exact keeps_census hx .report

theorem keeps_carryOut {command : Command} (hcommand : command ≠ .reopen) :
    Keeps s c x (s.carryOut c x command).1 := by
  cases command with
  | insert | update | delete => exact keeps_change hx _
  | dropTable => exact keeps_change hx fun r => r.drop.map (·, ())
  | dropEmail => exact keeps_change hx fun r => r.dropEmail.map (·, ())
  | close => exact (keeps_release hx).setClient rfl rfl
  | reopen => exact absurd rfl hcommand
  | fetch | gather => exact keeps_refl hx
  | get => exact keeps_census hx .call
  | collect => exact keeps_census hx .report
  | request r => exact keeps_request hx r

/-- **A command that opens nothing keeps to its own client and name.** -/
theorem keeps_perform {command : Command} (hcommand : command ≠ .reopen) :
    Keeps s c x (s.perform c command).1 := by
  have hcarry : Keeps s c x ((if command.needsDatabase then s.acquire c x else (s, x)).1.carryOut c
      (if command.needsDatabase then s.acquire c x else (s, x)).2 command).1 := by
    split
    · obtain ⟨hacquire, hself⟩ := keeps_acquire hx
      exact hacquire.trans (keeps_carryOut hself hcommand)
    · exact keeps_carryOut hx hcommand
  simp only [perform, hx]
  split
  · exact hcarry
  · exact hcarry
  · exact hcarry
  · exact keeps_refl hx

end Keeps

/-- **A pool that looks at its connection keeps to its own client and name.** -/
theorem lapse_cases (s : Site) (c : ℕ) : s.lapse c = s ∨ ∃ x, Keeps s c x (s.lapse c) := by
  cases hx : s.clients[c]? with
  | none => exact .inl (by simp only [lapse, hx])
  | some x =>
      refine .inr ⟨x, ?_⟩
      simp only [lapse, hx]
      split
      · exact keeps_release hx
      · exact keeps_refl hx

/-! ## Opening a path -/

/-- What opening a path does: what is under its name may change, and one more name may have been
made up. -/
structure Connects (s : Site) (path : String) (s' : Site) (y : Client) : Prop where
  process : s'.process = s.process
  counter : s'.counter = if path = Path.inMemory then s.counter + 1 else s.counter
  time : s'.time = s.time
  placeOf : ∀ name ≠ s.nameFor path, s'.placeOf name = s.placeOf name
  clients : s'.clients = s.clients
  name : y.name = s.nameFor path
  path : y.path = path

theorem connects (s : Site) (path : String) :
    Connects s path (s.connect path).1 (s.connect path).2.1 := by
  have hcount : Connects s path (s.count path) { path, name := s.nameFor path } := by
    unfold count
    split
    · exact ⟨rfl, (if_pos ‹_›).symm, rfl, fun _ _ => rfl, rfl, rfl, rfl⟩
    · exact ⟨rfl, (if_neg ‹_›).symm, rfl, fun _ _ => rfl, rfl, rfl, rfl⟩
  unfold connect
  dsimp only
  split
  · exact hcount
  · refine ⟨hcount.process, hcount.counter, hcount.time, fun name hne => ?_, hcount.clients, rfl,
      rfl⟩
    exact (placeOf_setPlace_of_ne _ _ _ hne).trans (hcount.placeOf name hne)

/-! ## Who has a name alone -/

/-- The names of a site, of which no more than `n` were made up: a client in memory has one of
those, and has it alone, any other client has the name of its path, and nothing is under the names
that are still to be made up. -/
structure Apart (s : Site) (n : ℕ) : Prop where
  counter : s.counter = UInt64.ofNat n
  made : ∀ (c : ℕ) x, s.clients[c]? = some x → x.path = Path.inMemory →
    ∃ k < n, x.name = memoryName s.process k
  plain : ∀ (c : ℕ) x, s.clients[c]? = some x → x.path ≠ Path.inMemory →
    x.name = x.path ∧ Plain x.path
  alone : ∀ (c d : ℕ) x y, s.clients[c]? = some x → s.clients[d]? = some y → x.name = y.name →
    x.path = Path.inMemory → c = d
  unused : ∀ k, n ≤ k → k < UInt64.size → s.placeOf (memoryName s.process k) = .database {}

section Apart

variable {s s' : Site} {c n : ℕ} {x y : Client}

/-- No client has a name that is still to be made up. -/
theorem Apart.name_ne (hs : s.Apart n) (hx : s.clients[c]? = some x) {k : ℕ} (hk : n ≤ k) :
    memoryName s.process k ≠ x.name := by
  by_cases hpath : x.path = Path.inMemory
  · obtain ⟨j, hj, hname⟩ := hs.made c x hx hpath
    rw [hname]
    intro h
    have := memoryName_injective h
    omega
  · obtain ⟨hname, hplain⟩ := hs.plain c x hx hpath
    rw [hname]
    exact (hplain.ne_memoryName _ _).symm

theorem Keeps.apart (h : Keeps s c x s') (hs : s.Apart n) : s'.Apart n := by
  constructor
  · rw [h.counter, hs.counter]
  · intro d y hy hpath
    obtain ⟨z, hz, hzpath, hzname⟩ := h.origin hy
    rw [h.process, hzname]
    exact hs.made d z hz (hzpath ▸ hpath)
  · intro d y hy hpath
    obtain ⟨z, hz, hzpath, hzname⟩ := h.origin hy
    rw [hzpath, hzname]
    exact hs.plain d z hz (hzpath ▸ hpath)
  · intro d e y y' hy hy' hsame hpath
    obtain ⟨z, hz, hzpath, hzname⟩ := h.origin hy
    obtain ⟨z', hz', -, hzname'⟩ := h.origin hy'
    exact hs.alone d e z z' hz hz' (by rw [← hzname, hsame, hzname']) (hzpath ▸ hpath)
  · intro k hk hlt
    rw [h.process, h.placeOf _ (hs.name_ne h.self hk)]
    exact hs.unused k hk hlt

/-- The name for a path in memory is the next one to be made up. -/
theorem Apart.nameFor_memory (hs : s.Apart n) (hn : n < UInt64.size) :
    s.nameFor Path.inMemory = memoryName s.process n := by
  rw [nameFor, if_pos rfl, hs.counter, UInt64.toNat_ofNat_of_lt' hn]

/-- **No client in memory has the name that a path is opened by.** -/
theorem Apart.name_ne_nameFor (hs : s.Apart n) (hn : n < UInt64.size) {path : String}
    (hpath : path ≠ Path.inMemory → Plain path) (hx : s.clients[c]? = some x)
    (hmemory : x.path = Path.inMemory) : x.name ≠ s.nameFor path := by
  by_cases h : path = Path.inMemory
  · rw [h, hs.nameFor_memory hn]
    exact (hs.name_ne hx le_rfl).symm
  · obtain ⟨k, -, hname⟩ := hs.made c x hx hmemory
    rw [nameFor, if_neg h, hname]
    exact ((hpath h).ne_memoryName _ _).symm

/-- The place of client `c`, old or new, goes to a client that has its name alone. -/
theorem Apart.seat {cs : List Client} {m : ℕ} (hs : s.Apart n)
    (hprocess : s'.process = s.process) (hcounter : s'.counter = UInt64.ofNat m) (hm : n ≤ m)
    (hunused : ∀ k, m ≤ k → k < UInt64.size → s'.placeOf (memoryName s.process k) = .database {})
    (hc : cs[c]? = some y) (hcs : ∀ d ≠ c, cs[d]? = s.clients[d]?)
    (hmade : y.path = Path.inMemory → ∃ k < m, y.name = memoryName s.process k)
    (hplain : y.path ≠ Path.inMemory → y.name = y.path ∧ Plain y.path)
    (hnew : ∀ (d : ℕ) z, s.clients[d]? = some z →
      z.path = Path.inMemory ∨ y.path = Path.inMemory → z.name ≠ y.name) :
    Apart { s' with clients := cs } m := by
  have hseat : ∀ (d : ℕ) z, cs[d]? = some z →
      d = c ∧ z = y ∨ d ≠ c ∧ s.clients[d]? = some z := by
    intro d z hz
    by_cases hd : d = c
    · subst hd
      exact .inl ⟨rfl, Option.some.inj (hz.symm.trans hc)⟩
    · exact .inr ⟨hd, (hcs d hd).symm.trans hz⟩
  refine ⟨hcounter, fun d z hz hpath => ?_, fun d z hz hpath => ?_,
    fun d e z z' hz hz' hsame hpath => ?_, fun k hk hlt => hprocess ▸ hunused k hk hlt⟩
  · show ∃ k < m, z.name = memoryName s'.process k
    rw [hprocess]
    rcases hseat d z hz with ⟨-, rfl⟩ | ⟨-, hz⟩
    · exact hmade hpath
    · obtain ⟨k, hk, hname⟩ := hs.made d z hz hpath
      exact ⟨k, hk.trans_le hm, hname⟩
  · rcases hseat d z hz with ⟨-, rfl⟩ | ⟨-, hz⟩
    · exact hplain hpath
    · exact hs.plain d z hz hpath
  · rcases hseat d z hz with ⟨rfl, rfl⟩ | ⟨-, hz⟩
    · rcases hseat e z' hz' with ⟨rfl, -⟩ | ⟨-, hz'⟩
      · rfl
      · exact absurd hsame.symm (hnew e z' hz' (.inr hpath))
    · rcases hseat e z' hz' with ⟨rfl, rfl⟩ | ⟨-, hz'⟩
      · exact absurd hsame (hnew d z hz (.inl hpath))
      · exact hs.alone d e z z' hz hz' hsame hpath

/-- **Opening a path keeps clients in memory apart**, as long as there are names. -/
theorem Apart.connect {path : String} {cs : List Client} (hs : s.Apart n) (hn : n < UInt64.size)
    (hpath : path ≠ Path.inMemory → Plain path) (h : Connects s path s' y)
    (hc : cs[c]? = some y) (hcs : ∀ d ≠ c, cs[d]? = s.clients[d]?) :
    ∃ m ≤ n + 1, Apart { s' with clients := cs } m := by
  by_cases hmemory : path = Path.inMemory
  · -- a name is made up
    have hname : y.name = memoryName s.process n := by
      rw [h.name, hmemory, hs.nameFor_memory hn]
    have hcounter : s'.counter = UInt64.ofNat (n + 1) := by
      rw [h.counter, if_pos hmemory, hs.counter, UInt64.ofNat_add]
      rfl
    refine ⟨n + 1, le_rfl, hs.seat h.process hcounter (Nat.le_succ n) (fun k hk hlt => ?_) hc hcs
      (fun _ => ⟨n, Nat.lt_succ_self n, hname⟩) (fun hy => absurd (h.path.trans hmemory) hy)
      fun d z hz _ => ?_⟩
    · rw [h.placeOf]
      · exact hs.unused k (by omega) hlt
      · rw [hmemory, hs.nameFor_memory hn]
        intro hsame
        have := memoryName_injective hsame
        omega
    · rw [hname]
      exact (hs.name_ne hz le_rfl).symm
  · -- the name is the path
    have hname : y.name = y.path := by
      rw [h.name, nameFor, if_neg hmemory, h.path]
    have hcounter : s'.counter = UInt64.ofNat n := by
      rw [h.counter, if_neg hmemory, hs.counter]
    have hy : y.path ≠ Path.inMemory := h.path ▸ hmemory
    refine ⟨n, Nat.le_succ n, hs.seat h.process hcounter le_rfl (fun k hk hlt => ?_) hc hcs
      (fun hypath => absurd hypath hy) (fun _ => ⟨hname, h.path ▸ hpath hmemory⟩)
      fun d z hz hor => ?_⟩
    · rw [h.placeOf]
      · exact hs.unused k hk hlt
      · rw [nameFor, if_neg hmemory]
        exact ((hpath hmemory).ne_memoryName _ _).symm
    · rw [h.name]
      exact hs.name_ne_nameFor hn hpath hz (hor.resolve_right hy)

/-! ## A whole history -/

theorem placeOf_discover {path name : String} (found : Place)
    (hname : path ≠ Path.inMemory → name ≠ path) :
    (s.discover path found).placeOf name = s.placeOf name := by
  unfold discover
  split
  · rfl
  · rename_i hknown
    simp only [Bool.or_eq_true, decide_eq_true_eq, not_or] at hknown
    exact s.placeOf_setPlace_of_ne path found (hname hknown.1)

theorem discover_eq (s : Site) (path : String) (found : Place) :
    s.discover path found = { s with places := (s.discover path found).places } := by
  unfold discover
  split <;> rfl

theorem Apart.discover (hs : s.Apart n) {path : String} (hpath : path ≠ Path.inMemory → Plain path)
    (found : Place) : (s.discover path found).Apart n := by
  have hunused : ∀ k, n ≤ k → k < UInt64.size →
      (s.discover path found).placeOf (memoryName s.process k) = .database {} := by
    intro k hk hlt
    rw [placeOf_discover found fun h => ((hpath h).ne_memoryName _ _).symm]
    exact hs.unused k hk hlt
  rw [discover_eq] at hunused ⊢
  exact ⟨hs.counter, hs.made, hs.plain, hs.alone, hunused⟩

/-- A new client is the last one. -/
theorem enter_eq (s : Site) (path : String) (found : Place) : (s.enter path found).1 =
    { ((s.discover path found).connect path).1 with
      clients := s.clients ++ [((s.discover path found).connect path).2.1] } := by
  have hclients : ((s.discover path found).connect path).1.clients = s.clients := by
    rw [(connects _ path).clients, discover_eq]
  unfold enter
  dsimp only
  rw [hclients]

theorem Apart.enter (hs : s.Apart n) (hn : n < UInt64.size) {path : String}
    (hpath : path ≠ Path.inMemory → Plain path) (found : Place) :
    ∃ m ≤ n + 1, (s.enter path found).1.Apart m := by
  rw [enter_eq]
  refine (hs.discover hpath found).connect hn hpath (connects _ path)
    (List.getElem?_concat_length ..) fun d hd => ?_
  rw [discover_eq]
  rcases Nat.lt_or_gt_of_ne hd with hlt | hgt
  · exact List.getElem?_append_left hlt
  · rw [List.getElem?_append_right hgt.le, List.getElem?_eq_none (by simp; omega),
      List.getElem?_eq_none hgt.le]

/-- A client that opens its path again lets go of its connection first. -/
theorem perform_reopen (hx : s.clients[c]? = some x) : (s.perform c .reopen).1 =
    ((s.release c x).connect x.path).1.setClient c ((s.release c x).connect x.path).2.1 := by
  have hcarry : (s.perform c .reopen).1 = (s.carryOut c x .reopen).1 := by
    simp only [perform, hx, Command.needsDatabase]
    split
    · rfl
    · rfl
    · rfl
    · exact absurd rfl ‹_›
  rw [hcarry]
  rfl

/-- **What a command can do**: nothing, something to its own client and what is under its name, or
an opening. -/
theorem perform_cases (s : Site) (c : ℕ) (command : Command) :
    (s.perform c command).1 = s ∨ ∃ x, s.clients[c]? = some x ∧
      (Keeps s c x (s.perform c command).1 ∨ command = .reopen) := by
  cases hx : s.clients[c]? with
  | none => exact .inl (by simp only [perform, hx])
  | some x =>
      by_cases hreopen : command = .reopen
      · exact .inr ⟨x, rfl, .inr hreopen⟩
      · exact .inr ⟨x, rfl, .inl (keeps_perform hx hreopen)⟩

theorem Apart.plain_path (hs : s.Apart n) (hx : s.clients[c]? = some x) :
    x.path ≠ Path.inMemory → Plain x.path := fun h => (hs.plain c x hx h).2

theorem Apart.reopen (hs : s.Apart n) (hn : n < UInt64.size) (hx : s.clients[c]? = some x) :
    ∃ m ≤ n + 1, (s.perform c .reopen).1.Apart m := by
  have hrelease := keeps_release hx
  have hconnect := connects (s.release c x) x.path
  obtain ⟨z, hz, -, -⟩ := hrelease.kept
  rw [perform_reopen hx, setClient, hconnect.clients]
  exact (hrelease.apart hs).connect hn (hs.plain_path hx) hconnect (clients_setClient hz _)
    fun d hd => List.getElem?_set_ne hd.symm

theorem Apart.lapse (hs : s.Apart n) (c : ℕ) : (s.lapse c).Apart n := by
  rcases lapse_cases s c with hsame | ⟨x, hkeeps⟩
  · rwa [hsame]
  · exact hkeeps.apart hs

theorem Apart.advance (hs : s.Apart n) (millis : ℕ) : Apart { s with time := s.time + millis } n :=
  ⟨hs.counter, hs.made, hs.plain, hs.alone, hs.unused⟩

theorem Apart.wait (hs : s.Apart n) (millis : ℕ) (pools : List ℕ) :
    (s.wait millis pools).Apart n :=
  List.foldlRecOn pools Site.lapse (motive := fun s' => s'.Apart n) (hs.advance millis)
    fun _ h c _ => h.lapse c

/-- **What happens at a site keeps clients in memory apart.** -/
theorem Apart.move {m : Move} (hs : s.Apart n) (hn : m.isOpening = true → n < UInt64.size)
    (hplain : m.IsPlain) : ∃ k ≤ n + if m.isOpening then 1 else 0, (s.move m).Apart k := by
  cases m with
  | enter path found => exact hs.enter (hn rfl) (fun _ => hplain) found
  | wait millis pools => exact ⟨n, le_rfl, hs.wait millis pools⟩
  | act c command =>
      rcases perform_cases s c command with hsame | ⟨x, hx, hkeeps | rfl⟩
      · exact ⟨n, Nat.le_add_right .., by rwa [Site.move, hsame]⟩
      · exact ⟨n, Nat.le_add_right .., hkeeps.apart hs⟩
      · exact hs.reopen (hn rfl) hx

theorem Apart.after {moves : List Move} (hs : s.Apart n) (hn : n + openings moves ≤ UInt64.size)
    (hplain : ∀ m ∈ moves, m.IsPlain) : ∃ k ≤ n + openings moves, (s.after moves).Apart k := by
  induction moves generalizing s n with
  | nil => exact ⟨n, le_rfl, hs⟩
  | cons m moves ih =>
      have hcount : openings (m :: moves) = openings moves + if m.isOpening then 1 else 0 :=
        List.countP_cons ..
      obtain ⟨k, hk, hmove⟩ := hs.move (fun h => by rw [hcount, if_pos h] at hn; omega)
        (hplain m List.mem_cons_self)
      obtain ⟨j, hj, hafter⟩ := ih hmove (by omega) fun m' h => hplain m' (List.mem_cons_of_mem _ h)
      exact ⟨j, by omega, hafter⟩

end Apart

end Site

end AccountCensus.Store
