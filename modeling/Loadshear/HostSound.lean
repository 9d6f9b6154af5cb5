import Loadshear.HostInfo
import Loadshear.Interpreter

/-!
# Which hosts a plan has

Both loops go through the same results, endpoint by endpoint (`found`). The one
for TCP leaves out what it has stored; the one for UDP stores over what it has,
and so comes to the last result.
-/

namespace Loadshear

def found (resolve : HostResolver) (settings : SettingsBlock) : List Endpoint :=
  settings.endpoints.flatMap fun endpoint => (resolve endpoint (toString settings.port.toNat)).results

section
variable {resolve : HostResolver} {settings : SettingsBlock} {port : UInt16}

/-! ## TCP -/

structure TCPHosts.Holds (h : TCPHosts) (seen : List Endpoint) : Prop where
  endpoints : h.endpoints = seen.eraseDups
  dupes : ∀ ep, ep ∈ h.endpointDupes ↔ ep ∈ seen

theorem TCPHosts.Holds.store {h : TCPHosts} {seen : List Endpoint} (hs : h.Holds seen) (entry : Endpoint) :
    (h.store entry).Holds (seen ++ [entry]) := by
  unfold TCPHosts.store
  by_cases he : entry ∈ seen
  · rw [if_pos ((hs.dupes entry).mpr he)]
    refine ⟨?_, fun ep => ?_⟩
    · have hnone : [entry].removeAll seen = [] := by simp [List.removeAll, he]
      rw [List.eraseDups_append, hnone, List.eraseDups_nil, List.append_nil]
      exact hs.endpoints
    · rw [hs.dupes, List.mem_append, List.mem_singleton]
      constructor
      · exact .inl
      · rintro (h | rfl)
        · exact h
        · exact he
  · rw [if_neg fun hd => he ((hs.dupes entry).mp hd)]
    refine ⟨?_, fun ep => ?_⟩
    · have hone : [entry].removeAll seen = [entry] := by simp [List.removeAll, he]
      have hsingle : [entry].eraseDups = [entry] := by simp [List.eraseDups_cons]
      rw [List.eraseDups_append, hone, hsingle, ← hs.endpoints]
    · rw [List.mem_cons, hs.dupes, List.mem_append, List.mem_singleton, or_comm]

theorem TCPHosts.Holds.stores : ∀ {entries : List Endpoint} {h : TCPHosts} {seen : List Endpoint}, h.Holds seen →
    (entries.foldl TCPHosts.store h).Holds (seen ++ entries)
  | [], h, seen, hs => by rwa [List.append_nil]
  | entry :: entries, h, seen, hs => by
    have hrest : (entries.foldl TCPHosts.store (h.store entry)).Holds (seen ++ [entry] ++ entries) :=
      (hs.store entry).stores
    rwa [List.append_assoc] at hrest

theorem TCPHosts.Holds.adds : ∀ {endpoints : List String} {h : TCPHosts} {seen : List Endpoint}, h.Holds seen →
    (endpoints.foldl (TCPHosts.add resolve port) h).Holds
      (seen ++ endpoints.flatMap fun endpoint => (resolve endpoint (toString port.toNat)).results)
  | [], h, seen, hs => by simpa using hs
  | endpoint :: endpoints, h, seen, hs => by
    have hadd : (h.add resolve port endpoint).Holds (seen ++ (resolve endpoint (toString port.toNat)).results) :=
      TCPHosts.Holds.stores ⟨hs.endpoints, hs.dupes⟩
    rw [List.flatMap_cons, ← List.append_assoc]
    exact TCPHosts.Holds.adds hadd

theorem tcpHosts_endpoints : (tcpHosts resolve settings).endpoints = (found resolve settings).eraseDups :=
  have hstart : TCPHosts.Holds ⟨[], [], []⟩ [] := ⟨rfl, by simp⟩
  hstart.adds.endpoints

theorem eraseDups_eq_nil {l : List Endpoint} : l.eraseDups = [] ↔ l = [] := by
  constructor
  · intro h
    apply List.eq_nil_iff_forall_not_mem.mpr
    intro ep hep
    have hmem := List.mem_eraseDups.mpr hep
    rw [h] at hmem
    cases hmem
  · rintro rfl
    rfl

/-! ## UDP -/

theorem udpHosts_stores : ∀ {entries : List Endpoint} {h : UDPHosts},
    (entries.foldl (fun h entry => { h with endpoints := entry }) h).endpoints = entries.getLast?.getD h.endpoints
  | [], h => rfl
  | entry :: entries, h => by
    rw [List.foldl_cons, udpHosts_stores, List.getLast?_cons]
    rfl

theorem udpHosts_adds : ∀ {endpoints : List String} {h : UDPHosts},
    (endpoints.foldl (UDPHosts.add resolve port) h).endpoints =
      (endpoints.flatMap fun endpoint => (resolve endpoint (toString port.toNat)).results).getLast?.getD h.endpoints
  | [], h => rfl
  | endpoint :: endpoints, h => by
    have hadd : (h.add resolve port endpoint).endpoints =
        (resolve endpoint (toString port.toNat)).results.getLast?.getD h.endpoints := udpHosts_stores
    rw [List.foldl_cons, udpHosts_adds, List.flatMap_cons, List.getLast?_append, hadd]
    cases (endpoints.flatMap fun endpoint => (resolve endpoint (toString port.toNat)).results).getLast? with
    | none => rfl
    | some ep => rfl

theorem udpHosts_endpoints : (udpHosts resolve settings).endpoints = (found resolve settings).getLast?.getD default :=
  udpHosts_adds

end

/-! ## The plans -/

section
variable {env : Env} {memory : Memory} {compiles : List UInt8 → Bool} {resolve : HostResolver} {script : DSLData}

/-- Nothing but the hosts can keep the script from having a plan. -/
def Plannable (env : Env) (memory : Memory) (compiles : List UInt8 → Bool) (script : DSLData) : Prop :=
  (∃ factory, messageHandlerFactory env compiles script.settings = .ok factory) ∧
    ∃ plan, generatePlanCommon env memory script = .ok plan

def PlannableUDP (env : Env) (memory : Memory) (compiles : List UInt8 → Bool) (script : DSLData) : Prop :=
  (∃ factory, messageHandlerFactory env compiles script.settings = .ok factory) ∧
    ∃ plan, generatePlanCommon env memory script = .ok plan ∧ ∃ warnings, checkSizes plan = .ok warnings

/-- The hosts of a TCP plan are the results without repetition, that of a UDP
plan the first of them; a plan that could be made fails for want of a result. -/
structure ChoosesHosts (env : Env) (memory : Memory) (compiles : List UInt8 → Bool) (resolve : HostResolver)
    (script : DSLData) : Prop where
  tcp : ∀ p, (generateTCPPlan env memory compiles resolve script).result = .ok p →
    p.endpoints = (found resolve script.settings).eraseDups
  tcpFails : Plannable env memory compiles script →
    ((∃ message, (generateTCPPlan env memory compiles resolve script).result = .error message) ↔
      found resolve script.settings = [])
  udp : ∀ p, (generateUDPPlan env memory compiles resolve script).result = .ok p →
    (found resolve script.settings).head? = some p.endpoints
  udpFails : PlannableUDP env memory compiles script →
    ((∃ message, (generateUDPPlan env memory compiles resolve script).result = .error message) ↔
      found resolve script.settings = [])

theorem generateTCPPlan_ok {p : HostPlan (List Endpoint)}
    (h : (generateTCPPlan env memory compiles resolve script).result = .ok p) :
    p.endpoints = (found resolve script.settings).eraseDups ∧ found resolve script.settings ≠ [] := by
  unfold generateTCPPlan at h
  split at h
  · cases h
  · simp only at h
    split at h
    · cases h
    · rename_i hne
      rw [tcpHosts_endpoints, eraseDups_eq_nil] at hne
      split at h
      · cases h
      · obtain rfl := Except.ok.inj h
        exact ⟨tcpHosts_endpoints, hne⟩

theorem generateTCPPlan_error (hp : Plannable env memory compiles script) {message : String}
    (h : (generateTCPPlan env memory compiles resolve script).result = .error message) :
    found resolve script.settings = [] := by
  obtain ⟨⟨factory, hf⟩, plan, hplan⟩ := hp
  unfold generateTCPPlan at h
  rw [hf, hplan] at h
  simp only at h
  split at h
  · rename_i hn
    rwa [tcpHosts_endpoints, eraseDups_eq_nil] at hn
  · cases h

theorem generateUDPPlan_ok {p : HostPlan Endpoint}
    (h : (generateUDPPlan env memory compiles resolve script).result = .ok p) :
    PlannableUDP env memory compiles script ∧ (found resolve script.settings).getLast? = some p.endpoints ∧
      p.endpoints ≠ default := by
  unfold generateUDPPlan at h
  split at h
  · cases h
  · rename_i factory hf
    simp only at h
    split at h
    · cases h
    · rename_i hne
      split at h
      · cases h
      · rename_i plan hplan
        split at h
        · cases h
        · rename_i warnings hw
          obtain rfl := Except.ok.inj h
          refine ⟨⟨⟨factory, hf⟩, plan, hplan, warnings, hw⟩, ?_, hne⟩
          rw [udpHosts_endpoints] at hne ⊢
          cases hlast : (found resolve script.settings).getLast? with
          | none => rw [hlast] at hne; exact absurd rfl hne
          | some ep => rfl

theorem generateUDPPlan_error (hp : PlannableUDP env memory compiles script) {message : String}
    (h : (generateUDPPlan env memory compiles resolve script).result = .error message) :
    (found resolve script.settings).getLast?.getD default = default := by
  obtain ⟨⟨factory, hf⟩, plan, hplan, warnings, hw⟩ := hp
  unfold generateUDPPlan at h
  rw [hf, hplan] at h
  simp only at h
  split at h
  · rename_i hd
    rwa [udpHosts_endpoints] at hd
  · rw [hw] at h
    cases h

/-- Both choose from the results as they should when the script has no UDP plan
anyway, or the first result is also the last and not the default endpoint. -/
theorem choosesHosts_iff (env : Env) (memory : Memory) (compiles : List UInt8 → Bool) (resolve : HostResolver)
    (script : DSLData) : ChoosesHosts env memory compiles resolve script ↔
      (PlannableUDP env memory compiles script →
        (found resolve script.settings).head? = (found resolve script.settings).getLast? ∧
          (found resolve script.settings).getLast? ≠ some default) := by
  constructor
  · intro h hp
    by_cases hn : found resolve script.settings = []
    · rw [hn]
      exact ⟨rfl, by simp⟩
    · cases hr : (generateUDPPlan env memory compiles resolve script).result with
      | error message => exact absurd ((h.udpFails hp).mp ⟨message, hr⟩) hn
      | ok p =>
        obtain ⟨_, hlast, hne⟩ := generateUDPPlan_ok hr
        rw [h.udp p hr, hlast]
        exact ⟨rfl, fun he => hne (Option.some.inj he)⟩
  · intro hcond
    refine ⟨fun p hp => (generateTCPPlan_ok hp).1, fun hp => ⟨fun ⟨_, hm⟩ => generateTCPPlan_error hp hm, fun hn => ?_⟩,
      fun p hp => ?_, fun hp => ⟨fun ⟨message, hm⟩ => ?_, fun hn => ?_⟩⟩
    · cases hr : (generateTCPPlan env memory compiles resolve script).result with
      | error message => exact ⟨message, rfl⟩
      | ok p => exact absurd hn (generateTCPPlan_ok hr).2
    · obtain ⟨hplan, hlast, _⟩ := generateUDPPlan_ok hp
      rw [(hcond hplan).1, hlast]
    · have hd := generateUDPPlan_error hp hm
      cases hlast : (found resolve script.settings).getLast? with
      | none => exact List.getLast?_eq_none_iff.mp hlast
      | some ep =>
        rw [hlast] at hd
        exact absurd (hlast.trans (congrArg some hd)) (hcond hp).2
    · cases hr : (generateUDPPlan env memory compiles resolve script).result with
      | error message => exact ⟨message, rfl⟩
      | ok p =>
        have hlast := (generateUDPPlan_ok hr).2.1
        rw [hn] at hlast
        cases hlast

end

def twoHosts : DSLData :=
  { plainScript [createAction 1] with
    settings := { (plainScript []).settings with sessionProtocol := "UDP", endpoints := ["a", "b"] } }

def resolveTwo (host _service : String) : Resolution :=
  if host = "a" then ⟨none, [⟨.v4 0x0a000001, 80⟩]⟩
  else if host = "b" then ⟨none, [⟨.v4 0x0a000002, 80⟩]⟩
  else ⟨some "Host not found", []⟩

theorem second_chosen :
    ((generateUDPPlan plainEnv .zero (fun _ => false) resolveTwo twoHosts).result.toOption.map (·.endpoints)) =
      some ⟨.v4 0x0a000002, 80⟩ ∧
    ¬ ChoosesHosts plainEnv .zero (fun _ => false) resolveTwo twoHosts := by
  have hchosen : ((generateUDPPlan plainEnv .zero (fun _ => false) resolveTwo twoHosts).result.toOption.map
      (·.endpoints)) = some ⟨.v4 0x0a000002, 80⟩ := by
    decide +kernel
  refine ⟨hchosen, fun h => ?_⟩
  cases hr : (generateUDPPlan plainEnv .zero (fun _ => false) resolveTwo twoHosts).result with
  | error message => rw [hr] at hchosen; cases hchosen
  | ok p =>
    have hfirst := h.udp p hr
    rw [hr] at hchosen
    have hp : p.endpoints = ⟨.v4 0x0a000002, 80⟩ := Option.some.inj hchosen
    rw [hp] at hfirst
    exact absurd hfirst (by decide)

end Loadshear
