import ReKernelX.Module.Token
import ReKernelX.RequestPath

/-!
# What the clients have set up

The calls of the Java interface are requests to a table on the other side of a socket.
Seen from the caller they have a simple meaning: a set of user ids to which ids are
added and from which they are removed, and a map of rules. The tables of the module
stand for that set and that map after every sequence of calls of any clients, although a
call may be refused at five places and only two of them tell the caller.

What is left of the path in the meaning of a call is whether a socket could be opened,
whether there was memory, and that a strategy is cut to its low byte. A call whose name
is copied over its own frame sends nothing; its name is too long for a rule, so it means
nothing either.
-/

set_option autoImplicit false

namespace ReKernelX

open Bytes

/-! ### The meaning of the calls -/

/-- The user ids whose traffic is to be reported, and the rules. -/
@[ext]
structure Settings where
  uids : Finset UInt32
  rules : RuleMap

/-- Nothing is set up. -/
def Settings.empty : Settings := ⟨∅, ∅⟩

/-- What a call asks for, with the low byte of the strategy. A name that is too long or
empty, a code below -1 and an invalid low byte are refused by `RuleMap.add`; deleting a
rule that cannot be there changes nothing. -/
def Settings.call (env : CallEnv) (s : Settings) : ClientCall → Settings
  | .addMonitorNet uid =>
    if env.socketOk ∧ env.kmallocOk then { s with uids := insert uid.toUInt32 s.uids } else s
  | .delMonitorNet uid =>
    if env.socketOk then { s with uids := s.uids.erase uid.toUInt32 } else s
  | .addFreeAsync rpcName code strategy =>
    if env.socketOk then
      { s with rules := (s.rules.add rpcName code strategy.toUInt32.toUInt8 env.kmallocOk).2 }
    else s
  | .delFreeAsync rpcName code =>
    if env.socketOk then { s with rules := (s.rules.del rpcName code).2 } else s

/-- What the tables of the module stand for. -/
def RkxTables.settings (s : RkxTables) : Settings :=
  ⟨s.netUid.uids.toFinset, s.freeAsync.contents⟩

/-- Every rule has a name that fits the table. -/
def RuleMap.Bounded (m : RuleMap) : Prop := ∀ k ∈ m, k.1.strlen ≤ 139

/-! ### Names in the table -/

namespace RuleMap

variable {m : RuleMap} {rpcName : Option CString} {code : Int32}

theorem bounded_empty : Bounded ∅ := fun _ hk => absurd hk Finmap.notMem_empty

theorem Bounded.add (bounded : m.Bounded) (strategy : UInt8) (kmallocOk : Bool) :
    (m.add rpcName code strategy kmallocOk).2.Bounded := by
  unfold RuleMap.add
  split
  · exact bounded
  · next name =>
    split_ifs with hadmissible hroom
    · intro k hk
      rcases Finmap.mem_insert.mp hk with rfl | hold
      · exact Nat.le_of_lt_succ hadmissible.2.1
      · exact bounded k hold
    · exact bounded
    · exact bounded

theorem Bounded.del (bounded : m.Bounded) : (m.del rpcName code).2.Bounded := by
  unfold RuleMap.del
  split
  · exact bounded
  · split_ifs
    · exact bounded
    · exact fun k hk => bounded k (Finmap.mem_erase.mp hk).2

/-- A name that does not fit has no rule to delete. -/
theorem Bounded.del_of_long (bounded : m.Bounded) {name : CString} (long : 139 < name.strlen) :
    (m.del (some name) code).2 = m := by
  have habsent : (name, code) ∉ m := fun h => absurd (bounded _ h) (Nat.not_le_of_lt long)
  unfold RuleMap.del
  dsimp only
  split_ifs
  · rfl
  · refine Finmap.ext_lookup fun k => ?_
    by_cases hk : k = (name, code)
    · rw [hk, Finmap.lookup_erase, Finmap.lookup_eq_none.mpr habsent]
    · exact Finmap.lookup_erase_ne hk

end RuleMap

theorem Settings.bounded_call {s : Settings} (bounded : s.rules.Bounded) (env : CallEnv)
    (call : ClientCall) : (s.call env call).rules.Bounded := by
  cases call with
  | addMonitorNet uid =>
    rw [Settings.call]
    split_ifs <;> exact bounded
  | delMonitorNet uid =>
    rw [Settings.call]
    split_ifs <;> exact bounded
  | addFreeAsync rpcName code strategy =>
    rw [Settings.call]
    split_ifs
    · exact bounded.add _ _
    · exact bounded
  | delFreeAsync rpcName code =>
    rw [Settings.call]
    split_ifs
    · exact bounded.del
    · exact bounded

/-! ### One call -/

section Call

variable {jhash : List UInt8 → UInt32} {hash : UInt32 → Fin 64} {client : ConnectedClient}
  {env : CallEnv} {s : RkxTables}

theorem RkxTables.Inv.receive (inv : s.Inv jhash hash) (family : FamilyId)
    (datagram : List UInt8) (kmallocOk : Bool) :
    (receiveRequest jhash hash family datagram kmallocOk s).2.Inv jhash hash := by
  unfold receiveRequest
  split
  · exact inv
  · split
    · exact inv
    · exact inv.handle _ _ _

/-- A call leaves the tables well formed, whatever it sends. -/
theorem RkxTables.Inv.clientCall (inv : s.Inv jhash hash) (call : ClientCall) :
    (call.run jhash hash client env s).tables.Inv jhash hash := by
  unfold ClientCall.run
  split
  · exact inv
  · split_ifs
    · exact inv
    · exact inv.receive _ _ _
    · exact inv

/-- A call about a user id over a socket that could be opened. -/
theorem tables_monitorCall {cmd : UInt8} {handler : Handler} {uid : Int32} {call : ClientCall}
    {t : RkxTables} (op : rkxGenlOps cmd = some handler) (socket : env.socketOk = true)
    (requested : call.request client env = (Client.monitorNetRequest cmd client.family.id client.gFd
      env.seq env.stack env.socketOk uid).map fun b => (true, b))
    (inside : call.overruns client env = false)
    (effect : ∀ info : GenlInfo, info.payload rkxAUid = some (leBytes 4 uid.toUInt32.toNat) →
      (handler.run jhash hash info env.kmallocOk s).2 = t) :
    (call.run jhash hash client env s).tables = t := by
  have hup : ¬ (client.family.id = 0 ∨ client.gFd < 0 ∨ env.socketOk = false) := by
    simp [client.id_ne_zero, client.opened, socket]
  rw [Client.monitorNetRequest, if_neg hup, Option.map_some] at requested
  obtain ⟨info, hpayload, hreceive⟩ := receive_monitorRequest op
  rw [run_of_sent requested inside rfl, hreceive]
  exact effect info hpayload

theorem tables_addMonitorNet (socket : env.socketOk = true) (uid : Int32) :
    ((ClientCall.addMonitorNet uid).run jhash hash client env s).tables =
      { s with netUid := rkxAddNetUid hash s.netUid uid.toUInt32 env.kmallocOk } := by
  have hop : rkxGenlOps rkxCAddMonitorNet = some .monitorNet := rfl
  refine tables_monitorCall hop socket rfl (overruns_monitorCall _ _) fun info payload => ?_
  simp only [Handler.run, rkxGenlMonitorNet, payload, nlaGetU32_leBytes]

theorem tables_delMonitorNet (socket : env.socketOk = true) (uid : Int32) :
    ((ClientCall.delMonitorNet uid).run jhash hash client env s).tables =
      { s with netUid := rkxDelNetUid hash s.netUid uid.toUInt32 } := by
  have hop : rkxGenlOps rkxCDelMonitorNet = some .delMonitorNet := rfl
  refine tables_monitorCall hop socket rfl (overruns_monitorCall _ _) fun info payload => ?_
  simp only [Handler.run, rkxGenlDelMonitorNet, payload, nlaGetU32_leBytes]

theorem uids_add {t : RkxNetUid} (inv : t.Inv hash) (uid : UInt32) (kmallocOk : Bool) :
    (rkxAddNetUid hash t uid kmallocOk).uids.toFinset =
      if kmallocOk then insert uid t.uids.toFinset else t.uids.toFinset := by
  ext u
  rw [List.mem_toFinset, ← (inv.add uid kmallocOk).monitored_iff_mem, RkxNetUid.monitored_add]
  cases kmallocOk <;> simp [inv.monitored_iff_mem, or_comm]

theorem uids_del {t : RkxNetUid} (inv : t.Inv hash) (uid : UInt32) :
    (rkxDelNetUid hash t uid).uids.toFinset = t.uids.toFinset.erase uid := by
  ext u
  rw [List.mem_toFinset, ← (inv.del uid).monitored_iff_mem, inv.monitored_del]
  simp [inv.monitored_iff_mem, and_comm]

/-- A call about a rule. The client refuses nothing that the table would accept, so its
own checks do not show in the rules, and neither does the way a long name is lost. -/
theorem settings_ruleCall {call : ClientCall} (name : CString) (code : Int32) {rules : RuleMap}
    {handled : RkxFreeAsync}
    (unsent : name.bytes = [] ∨ code < -1 → call.request client env = none)
    (refused : name.bytes = [] ∨ code < -1 ∨ 139 < name.strlen → rules = s.freeAsync.contents)
    (sent : name.bytes ≠ [] → ¬ code < -1 →
      (name.strlen ≤ 139 →
        (call.run jhash hash client env s).tables = { s with freeAsync := handled }) ∧
      (139 < name.strlen → (call.run jhash hash client env s).tables = s))
    (contents : handled.contents = rules) :
    (call.run jhash hash client env s).tables.settings = ⟨s.settings.uids, rules⟩ := by
  by_cases hrefused : name.bytes = [] ∨ code < -1
  · have hrules : rules = s.freeAsync.contents := by
      rcases hrefused with hempty | hlow
      · exact refused (Or.inl hempty)
      · exact refused (Or.inr (Or.inl hlow))
    rw [run_of_refused (unsent hrefused), hrules]
    rfl
  · obtain ⟨hnonempty, hcode⟩ := not_or.mp hrefused
    obtain ⟨hshort, hlong⟩ := sent hnonempty hcode
    by_cases hname : name.strlen ≤ 139
    · rw [hshort hname, ← contents]
      rfl
    · have hlong' : 139 < name.strlen := Nat.lt_of_not_le hname
      rw [hlong hlong', refused (Or.inr (Or.inr hlong'))]
      rfl

theorem settings_addFreeAsync (inv : s.Inv jhash hash) (socket : env.socketOk = true)
    (name : CString) (code strategy : Int32) :
    ((ClientCall.addFreeAsync (some name) code strategy).run jhash hash client env
      s).tables.settings = ⟨s.settings.uids,
        (s.freeAsync.contents.add (some name) code strategy.toUInt32.toUInt8
          env.kmallocOk).2⟩ := by
  have hcontents : (rkxAddFreeAsync jhash s.freeAsync (some name) code strategy.toUInt32.toUInt8
      env.kmallocOk).2.contents = _ :=
    congrArg Prod.snd (inv.freeAsync.contents_add (some name) code strategy.toUInt32.toUInt8
      env.kmallocOk)
  refine settings_ruleCall name code ?_ ?_ ?_ hcontents
  · rintro (h | h) <;> simp [ClientCall.request, Client.addFreeAsync, h]
  · intro hrefused
    have hnot : ¬ RuleMap.Admissible name code strategy.toUInt32.toUInt8 := by
      rintro ⟨hpos, hlt, hcode, -⟩
      rcases hrefused with hempty | hlow | hlong
      · rw [CString.strlen, hempty] at hpos
        exact absurd hpos (Nat.lt_irrefl 0)
      · exact hcode hlow
      · exact absurd hlt (Nat.not_lt_of_le hlong)
    simp only [RuleMap.add, if_neg hnot]
  · intro hnonempty hcode
    obtain ⟨-, hshort, hlong⟩ := @addFreeAsync_spec jhash hash s client env name code strategy
      hnonempty hcode socket
    exact ⟨fun h => (hshort h).2, fun h => (hlong h).2⟩

theorem settings_delFreeAsync (inv : s.Inv jhash hash) (bounded : s.freeAsync.contents.Bounded)
    (socket : env.socketOk = true) (name : CString) (code : Int32) :
    ((ClientCall.delFreeAsync (some name) code).run jhash hash client env s).tables.settings =
      ⟨s.settings.uids, (s.freeAsync.contents.del (some name) code).2⟩ := by
  have hcontents : (rkxDelFreeAsync jhash s.freeAsync (some name) code).2.contents = _ :=
    congrArg Prod.snd (inv.freeAsync.contents_del (some name) code)
  refine settings_ruleCall name code ?_ ?_ ?_ hcontents
  · rintro (h | h) <;> simp [ClientCall.request, Client.delFreeAsync, h]
  · rintro (hempty | hlow | hlong)
    · have hzero : name.strlen = 0 := by rw [CString.strlen, hempty, List.length_nil]
      simp only [RuleMap.del, if_pos (Or.inl hzero)]
    · simp only [RuleMap.del, if_pos (Or.inr hlow)]
    · exact bounded.del_of_long hlong
  · intro hnonempty hcode
    obtain ⟨-, hshort, hlong⟩ := @delFreeAsync_spec jhash hash s client env name code hnonempty
      hcode socket
    exact ⟨fun h => (hshort h).2, fun h => (hlong h).2⟩

/-- Without a socket or without a name nothing is sent. -/
theorem run_of_no_socket (closed : env.socketOk = false) (call : ClientCall) :
    call.run jhash hash client env s = ⟨some false, none, s⟩ := by
  apply run_of_refused
  cases call with
  | addMonitorNet uid =>
    simp [ClientCall.request, Client.addMonitorNet, Client.monitorNetRequest, closed]
  | delMonitorNet uid =>
    simp [ClientCall.request, Client.delMonitorNet, Client.monitorNetRequest, closed]
  | addFreeAsync rpcName code strategy =>
    cases rpcName <;> simp [ClientCall.request, Client.addFreeAsync, closed]
  | delFreeAsync rpcName code =>
    cases rpcName <;> simp [ClientCall.request, Client.delFreeAsync, closed]

/-- A call does to the tables what it means. -/
theorem settings_run (inv : s.Inv jhash hash) (bounded : s.freeAsync.contents.Bounded)
    (call : ClientCall) :
    (call.run jhash hash client env s).tables.settings = s.settings.call env call := by
  cases hsocket : env.socketOk with
  | false =>
    rw [run_of_no_socket hsocket]
    cases call <;> simp [Settings.call, hsocket]
  | true =>
    cases call with
    | addMonitorNet uid =>
      rw [tables_addMonitorNet hsocket, Settings.call, RkxTables.settings, uids_add inv.netUid]
      cases hmemory : env.kmallocOk <;> simp [hsocket, RkxTables.settings]
    | delMonitorNet uid =>
      rw [tables_delMonitorNet hsocket, Settings.call, if_pos hsocket, RkxTables.settings,
        uids_del inv.netUid]
      rfl
    | addFreeAsync rpcName code strategy =>
      rw [Settings.call, if_pos hsocket]
      cases rpcName with
      | none =>
        have hrefused : (ClientCall.addFreeAsync none code strategy).request client env = none := by
          simp [ClientCall.request, Client.addFreeAsync]
        rw [run_of_refused hrefused]
        rfl
      | some name => exact settings_addFreeAsync inv hsocket name code strategy
    | delFreeAsync rpcName code =>
      rw [Settings.call, if_pos hsocket]
      cases rpcName with
      | none =>
        have hrefused : (ClientCall.delFreeAsync none code).request client env = none := by
          simp [ClientCall.request, Client.delFreeAsync]
        rw [run_of_refused hrefused]
        rfl
      | some name => exact settings_delFreeAsync inv bounded hsocket name code

end Call

/-! ### Every sequence of calls -/

/-- A call of some client, with what it meets on its way. -/
structure ClientCallEvent where
  client : ConnectedClient
  env : CallEnv
  call : ClientCall

section Runs

variable (jhash : List UInt8 → UInt32) (hash : UInt32 → Fin 64)

/-- The tables after a sequence of calls. -/
def tablesAfterCalls (calls : List ClientCallEvent) : RkxTables :=
  calls.foldl (fun s e => (e.call.run jhash hash e.client e.env s).tables) noTables

/-- What a sequence of calls has set up. -/
def settingsAfter (calls : List ClientCallEvent) : Settings :=
  calls.foldl (fun s e => s.call e.env e.call) .empty

end Runs

/-- The tables are well formed and stand for what was set up. -/
structure RkxTables.Stands (jhash : List UInt8 → UInt32) (hash : UInt32 → Fin 64) (s : RkxTables)
    (asked : Settings) : Prop where
  inv : s.Inv jhash hash
  bounded : asked.rules.Bounded
  settings : s.settings = asked

namespace RkxTables

variable {jhash : List UInt8 → UInt32} {hash : UInt32 → Fin 64} {s : RkxTables} {asked : Settings}

theorem stands_noTables : noTables.Stands jhash hash .empty where
  inv := inv_noTables
  bounded := RuleMap.bounded_empty
  settings := Settings.ext rfl RkxFreeAsync.contents_init

theorem Stands.call (h : s.Stands jhash hash asked) (client : ConnectedClient) (env : CallEnv)
    (call : ClientCall) :
    (call.run jhash hash client env s).tables.Stands jhash hash (asked.call env call) where
  inv := h.inv.clientCall call
  bounded := Settings.bounded_call h.bounded env call
  settings := by
    have hbounded : s.freeAsync.contents.Bounded := by
      have hb := h.bounded
      rwa [← h.settings] at hb
    rw [settings_run h.inv hbounded, h.settings]

theorem Stands.monitored_iff (h : s.Stands jhash hash asked) (uid : UInt32) :
    rkxNetUidMonitoredRcu hash s.netUid uid = true ↔ uid ∈ asked.uids := by
  rw [h.inv.netUid.monitored_iff_mem, ← h.settings]
  exact List.mem_toFinset.symm

theorem stands_after (calls : List ClientCallEvent) :
    (tablesAfterCalls jhash hash calls).Stands jhash hash (settingsAfter calls) := by
  -- both folds are followed call by call, from the last one
  induction calls using List.reverseRecOn with
  | nil => exact stands_noTables
  | append_singleton calls e ih =>
    rw [tablesAfterCalls, settingsAfter, List.foldl_append, List.foldl_append]
    exact ih.call e.client e.env e.call

end RkxTables

/-- **The Java interface is a set of user ids and a map of rules.** After every sequence
of calls by any clients, with sockets that cannot be opened and memory that runs out, the
tables of the module hold what the calls mean, where a strategy means its low byte. So the
hooks find a user id monitored exactly when it is in the set, and, with fewer than 2^31
rules, a lookup returns the strategy of the rule for the code or else of the one for all
codes. -/
theorem client_calls_refine_settings (jhash : List UInt8 → UInt32) (hash : UInt32 → Fin 64)
    (calls : List ClientCallEvent) :
    let s := tablesAfterCalls jhash hash calls
    let asked := settingsAfter calls
    s.settings = asked ∧
    (∀ uid, rkxNetUidMonitoredRcu hash s.netUid uid = true ↔ uid ∈ asked.uids) ∧
    (asked.rules.keys.card < 2 ^ 31 → ∀ (rpcName : CString) (code : Int32) (out : UInt8),
      rkxFreeAsyncLookupRcu jhash s.freeAsync (some rpcName) code (some out) =
        ((asked.rules.resolve rpcName code).isSome,
          some ((asked.rules.resolve rpcName code).getD out))) := by
  intro s asked
  have stands : s.Stands jhash hash asked := RkxTables.stands_after calls
  refine ⟨stands.settings, stands.monitored_iff, fun few rpcName code out => ?_⟩
  have hrules : s.freeAsync.contents = asked.rules := congrArg Settings.rules stands.settings
  rw [← hrules] at few ⊢
  rw [stands.inv.freeAsync.lookup_eq few]
  cases s.freeAsync.contents.resolve rpcName code <;> rfl

/-- An app is monitored and a rule is added for all codes of an interface. -/
def twoCalls : List ClientCallEvent :=
  [⟨someClient, someEnv, .addMonitorNet 10001⟩,
    ⟨someClient, someEnv, .addFreeAsync (some RkxFreeAsync.nameA) (-1) 2⟩]

theorem settingsAfter_twoCalls :
    settingsAfter twoCalls = ⟨{10001}, Finmap.singleton (RkxFreeAsync.nameA, -1) 2⟩ := by
  have hadmissible : RuleMap.Admissible RkxFreeAsync.nameA (-1) 2 := by decide
  refine Settings.ext rfl ?_
  exact congrArg Prod.snd (if_pos hadmissible)

theorem client_calls_refine_settings_two :
    rkxNetUidMonitoredRcu (fun _ => 0)
      (tablesAfterCalls (fun _ => 0) (fun _ => 0) twoCalls).netUid 10001 = true ∧
    rkxFreeAsyncLookupRcu (fun _ => 0)
      (tablesAfterCalls (fun _ => 0) (fun _ => 0) twoCalls).freeAsync (some RkxFreeAsync.nameA) 7
      (some 0) = (true, some 2) := by
  obtain ⟨-, huids, hrules⟩ := client_calls_refine_settings (fun _ => 0) (fun _ => 0) twoCalls
  rw [settingsAfter_twoCalls] at huids hrules
  constructor
  · exact (huids 10001).mpr (Finset.mem_singleton_self _)
  · have hresolve : RuleMap.resolve (Finmap.singleton (RkxFreeAsync.nameA, -1) 2)
        RkxFreeAsync.nameA 7 = some 2 := (resolve_singleton (Or.inr rfl)).trans (if_pos rfl)
    have hlookup := hrules (by simp) RkxFreeAsync.nameA 7 0
    rwa [hresolve] at hlookup

end ReKernelX
