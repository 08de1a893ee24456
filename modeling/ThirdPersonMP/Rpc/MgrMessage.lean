import Mathlib.Data.Int.Notation
import Mathlib.Data.Nat.Notation
import Mathlib.Data.List.GetD
import Mathlib.Logic.Function.Basic
import Mathlib.Tactic.Common

/-!
# The service tables

`UMgrMessage::registerService` (`MgrMessage.cpp`, 179–221) asks the factory for the
service and the stub of every service type, and fills two tables: `m_arrayService`, from
the service type to the service object, and `m_mapRequest2ServiceInfo`, from the
descriptor of a request to the service type and the index of its method. `RpcChannel`
looks up the second to send a request and the first to handle a message.

The generated code, which is not here, is a parameter (`Generated`): the bounds, names
and validity of `EServiceType`, and what the factory creates under a type name. A service
object is what its descriptor says of it, the prototypes of its methods.

* `registerService_consistent` — what `GetServiceInfo` returns for a request is a service
  type and a method that `GetServicePtr` and the descriptor have, and the method takes
  that request.
-/

namespace ThirdPersonMP.Rpc

variable {D : Type*}

/-! ### Services -/

/-- `ENUM::EServerType`. -/
inductive EServerType where
  | min
  | client
  | gateServer
  | gameServer
  | other (value : ℤ)
  deriving DecidableEq

/-- `MethodDescriptor`, by the descriptors of `GetRequestPrototype` and
`GetResponsePrototype`. -/
structure MethodDescriptor (D : Type*) where
  /-- The type of its request. -/
  requestPrototype : D
  /-- The type of its response. -/
  responsePrototype : D

/-- A service or a stub, by the methods of `GetDescriptor()`. -/
structure Service (D : Type*) where
  /-- `method(0)`, …, `method(method_count() - 1)`. -/
  methods : List (MethodDescriptor D)

/-- `GetDescriptor()->method(index)`, a pointer `methods_ + index`; `none` when it points
outside the methods. -/
def Service.method (service : Service D) (index : ℤ) : Option (MethodDescriptor D) :=
  if 0 ≤ index then service.methods[index.toNat]? else none

/-- `SServiceInfo`. -/
structure SServiceInfo where
  serviceType : ℤ
  methodIndex : ℤ
  from_ : EServerType
  to_ : EServerType
  deriving DecidableEq

/-- The generated code, and `MgrDynamicFactory` with the services registered there. -/
structure Generated (D : Type*) where
  /-- `ENUM::SERVICETYPE_MIN`. -/
  serviceTypeMin : ℕ
  /-- `ENUM::SERVICETYPE_MAX`. -/
  serviceTypeMax : ℕ
  /-- `ENUM::EServiceType_IsValid`. -/
  eServiceTypeIsValid : ℤ → Bool
  /-- `ENUM::EServiceType_Name`. -/
  eServiceTypeName : ℤ → String
  /-- `MgrDynamicFactory::Instance().CreateService`. -/
  createService : String → Option (Service D)

/-- What the source relies on. -/
structure Generated.Lawful (g : Generated D) : Prop where
  /-- A named service type is valid. -/
  valid : ∀ t, g.eServiceTypeName t ≠ "" → g.eServiceTypeIsValid t = true
  /-- No class has the type name of a service type without a name. -/
  unnamed : g.createService "RPC::" = none ∧ g.createService "RPC::_Stub" = none
  /-- A service and its stub have one descriptor. -/
  stub : ∀ t service stub, g.createService ("RPC::" ++ g.eServiceTypeName t) = some service →
    g.createService ("RPC::" ++ g.eServiceTypeName t ++ "_Stub") = some stub →
    stub.methods = service.methods

/-! ### Registration -/

/-- The tables of `UMgrMessage`. -/
structure MgrMessage (D : Type*) where
  /-- `m_arrayService`. -/
  mArrayService : List (Option (Service D))
  /-- `m_mapRequest2ServiceInfo`. -/
  mMapRequest2ServiceInfo : D → Option SServiceInfo

/-- `s_mapChar2ServiceType`; a character that is not in it leaves `ESERVERTYPE_MIN`. -/
def char2ServiceType : Char → EServerType
  | 'C' => .client
  | 'A' => .gateServer
  | 'G' => .gameServer
  | _ => .min

/-- `getServiceFromTo` (252–270). -/
def getServiceFromTo (serviceTypeName : String) : EServerType × EServerType :=
  match serviceTypeName.toList with
  | c :: _ :: c' :: _ => (char2ServiceType c, char2ServiceType c')
  | _ => (.min, .min)

section

variable [DecidableEq D] (g : Generated D)

/-- The loop over the methods of a service, from the one with index `i` on. -/
def registerMethods (serviceType : ℕ) : ℕ → List (MethodDescriptor D) →
    (D → Option SServiceInfo) → D → Option SServiceInfo
  | _, [], map => map
  | i, method :: methods, map =>
    let (from_, to_) := getServiceFromTo (g.eServiceTypeName serviceType)
    registerMethods serviceType (i + 1) methods
      (Function.update map method.requestPrototype (some ⟨serviceType, i, from_, to_⟩))

/-- `funcParseService`. -/
def funcParseService (serviceType : ℕ) (mgr : MgrMessage D) (serviceTypeName : String) :
    MgrMessage D :=
  match g.createService serviceTypeName with
  | none => mgr
  | some service =>
    -- `m_arrayService.at` is in range, the loop runs below `SERVICETYPE_MAX`
    { mArrayService := mgr.mArrayService.set serviceType (some service)
      mMapRequest2ServiceInfo :=
        registerMethods g serviceType 0 service.methods mgr.mMapRequest2ServiceInfo }

/-- A round of the loop of `registerService`: the service, then the stub. -/
def registerServiceType (mgr : MgrMessage D) (serviceType : ℕ) : MgrMessage D :=
  let name := g.eServiceTypeName serviceType
  funcParseService g serviceType (funcParseService g serviceType mgr ("RPC::" ++ name))
    ("RPC::" ++ name ++ "_Stub")

/-- `registerService()`. -/
def registerService : MgrMessage D :=
  (List.range' (g.serviceTypeMin + 1) (g.serviceTypeMax - (g.serviceTypeMin + 1))).foldl
    (registerServiceType g)
    { mArrayService := List.replicate g.serviceTypeMax none
      mMapRequest2ServiceInfo := fun _ => none }

/-- `GetServicePtr` (223–228); `none` when `m_arrayService.at` throws. -/
def MgrMessage.getServicePtr (mgr : MgrMessage D) (serviceType : ℤ) : Option (Option (Service D)) :=
  if !g.eServiceTypeIsValid serviceType then some none
  else if 0 ≤ serviceType then mgr.mArrayService[serviceType.toNat]? else none

/-- `GetServiceInfo` (230–236). -/
def MgrMessage.getServiceInfo (mgr : MgrMessage D) (requestDesc : D) : Option SServiceInfo :=
  mgr.mMapRequest2ServiceInfo requestDesc

/-- Registering a service keeps the size of the array. -/
theorem length_funcParseService (t : ℕ) (mgr : MgrMessage D) (name : String) :
    (funcParseService g t mgr name).mArrayService.length = mgr.mArrayService.length := by
  unfold funcParseService
  split
  · rfl
  · rw [List.length_set]

/-- `std::array<ServicePtr, ENUM::SERVICETYPE_MAX>`. -/
theorem length_registerService :
    (registerService g).mArrayService.length = g.serviceTypeMax := by
  have hloop : ∀ (ts : List ℕ) (mgr : MgrMessage D),
      (ts.foldl (registerServiceType g) mgr).mArrayService.length = mgr.mArrayService.length := by
    intro ts
    induction ts with
    | nil => exact fun _ => rfl
    | cons t ts ih =>
      intro mgr
      rw [List.foldl_cons, ih, registerServiceType, length_funcParseService,
        length_funcParseService]
  rw [registerService, hloop, List.length_replicate]

/-! ### The tables are consistent -/

/-- The info of a request is of a method that takes it, of a service that is in the array. -/
def MgrMessage.Has (mgr : MgrMessage D) (requestDesc : D) (info : SServiceInfo) : Prop :=
  ∃ (t i : ℕ) (service : Service D) (method : MethodDescriptor D),
    info.serviceType = t ∧ info.methodIndex = i ∧ mgr.mArrayService[t]? = some (some service) ∧
      service.methods[i]? = some method ∧ method.requestPrototype = requestDesc ∧
      g.eServiceTypeIsValid t = true

/-- An entry after the loop over the methods: one from before, or of a method of the
service. -/
theorem registerMethods_eq_some {t i : ℕ} {methods : List (MethodDescriptor D)}
    {map : D → Option SServiceInfo} {d : D} {info : SServiceInfo}
    (h : registerMethods g t i methods map d = some info) :
    map d = some info ∨ ∃ j method, methods[j]? = some method ∧ method.requestPrototype = d ∧
      info.serviceType = t ∧ info.methodIndex = (i + j : ℕ) := by
  induction methods generalizing i map with
  | nil => exact .inl h
  | cons method methods ih =>
    rcases ih h with h | ⟨j, method', hj, hd, ht, hi⟩
    · by_cases hd : d = method.requestPrototype
      · subst hd
        rw [Function.update_self, Option.some.injEq] at h
        subst h
        exact .inr ⟨0, method, rfl, rfl, rfl, rfl⟩
      · rw [Function.update_of_ne hd] at h
        exact .inl h
    · refine .inr ⟨j + 1, method', hj, hd, ht, ?_⟩
      rw [hi]
      omega

/-- The tables when the service types below `n` are registered. -/
structure MgrMessage.Filled (mgr : MgrMessage D) (n : ℕ) : Prop where
  /-- `std::array<ServicePtr, ENUM::SERVICETYPE_MAX>`. -/
  length : mgr.mArrayService.length = g.serviceTypeMax
  /-- Every entry is of a method that there is. -/
  has : ∀ d info, mgr.mMapRequest2ServiceInfo d = some info →
    mgr.Has g d info ∧ info.serviceType < n
  /-- The later service types have no service yet. -/
  later : ∀ t, n ≤ t → ∀ service, mgr.mArrayService[t]? ≠ some (some service)

variable {g} {mgr : MgrMessage D} {t : ℕ} {name : String}

/-- Registering a service under a valid type, where the service registered under it
before, if there is one, has the same methods. -/
theorem filled_funcParseService (h : mgr.Filled g (t + 1)) (ht : t < g.serviceTypeMax)
    (hvalid : g.createService name ≠ none → g.eServiceTypeIsValid t = true)
    (hsame : ∀ service before, g.createService name = some service →
      mgr.mArrayService[t]? = some (some before) → service.methods = before.methods) :
    (funcParseService g t mgr name).Filled g (t + 1) := by
  unfold funcParseService
  cases hc : g.createService name with
  | none => exact h
  | some service =>
    have hget : (mgr.mArrayService.set t (some service))[t]? = some (some service) := by
      rw [List.getElem?_set_self (by rw [h.length]; exact ht)]
    refine ⟨by rw [List.length_set]; exact h.length, fun d info hd => ?_, fun t' ht' service' => ?_⟩
    · rcases registerMethods_eq_some g hd with hd | ⟨j, method, hj, hd, ht', hi⟩
      · obtain ⟨⟨t', i, before, method, hst, hmi, hb, hm, hreq, hv⟩, hlt⟩ := h.has d info hd
        refine ⟨?_, hlt⟩
        by_cases htt : t' = t
        · subst htt
          have hms := hsame service before hc hb
          exact ⟨t', i, service, method, hst, hmi, hget, by rw [hms]; exact hm, hreq, hv⟩
        · refine ⟨t', i, before, method, hst, hmi, ?_, hm, hreq, hv⟩
          rw [List.getElem?_set_ne (Ne.symm htt)]
          exact hb
      · refine ⟨⟨t, j, service, method, ht', ?_, hget, hj, hd, hvalid (by simp [hc])⟩, ?_⟩
        · rw [hi, Nat.zero_add]
        · rw [ht']
          omega
    · rw [List.getElem?_set_ne (by omega)]
      exact h.later t' ht' service'

/-- The service of the type after `funcParseService`: the one created, or the one from before. -/
theorem funcParseService_getElem? {service : Service D}
    (h : (funcParseService g t mgr name).mArrayService[t]? = some (some service)) :
    g.createService name = some service ∨ mgr.mArrayService[t]? = some (some service) := by
  unfold funcParseService at h
  cases hc : g.createService name with
  | none =>
    rw [hc] at h
    exact .inr h
  | some service' =>
    rw [hc] at h
    rw [List.getElem?_set, if_pos rfl] at h
    split at h
    · rw [Option.some.injEq, Option.some.injEq] at h
      exact .inl (by rw [h])
    · cases h

/-- A round of the loop of `registerService`. -/
theorem filled_registerServiceType (hg : g.Lawful) (h : mgr.Filled g t)
    (ht : t < g.serviceTypeMax) : (registerServiceType g mgr t).Filled g (t + 1) := by
  have hnone := h.later t (Nat.le_refl t)
  have hvalid : ∀ suffix, suffix = "" ∨ suffix = "_Stub" →
      g.createService ("RPC::" ++ g.eServiceTypeName t ++ suffix) ≠ none →
      g.eServiceTypeIsValid t = true := by
    intro suffix hs hc
    refine hg.valid t fun hn => hc ?_
    rw [hn]
    rcases hs with rfl | rfl
    · exact hg.unnamed.1
    · exact hg.unnamed.2
  have hfirst : (funcParseService g t mgr ("RPC::" ++ g.eServiceTypeName t)).Filled g (t + 1) := by
    refine filled_funcParseService ⟨h.length, fun d info hd => ?_, fun t' ht' => ?_⟩ ht
      (fun hc => ?_) fun service before _ hb => absurd hb (hnone before)
    · have := h.has d info hd
      exact ⟨this.1, by omega⟩
    · exact h.later t' (by omega)
    · exact hvalid "" (.inl rfl) (by rwa [String.append_empty])
  refine filled_funcParseService hfirst ht (hvalid "_Stub" (.inr rfl)) fun stub before hc hb => ?_
  -- the service registered first is of the same descriptor
  rcases funcParseService_getElem? hb with hb | hb
  · exact hg.stub t before stub hb hc
  · exact absurd hb (hnone before)

/-- **The tables of `registerService` are consistent**: for what `GetServiceInfo` returns,
`GetServicePtr` returns a service whose descriptor has the method, and the method takes
the request. -/
theorem registerService_consistent (hg : g.Lawful) {d : D} {info : SServiceInfo}
    (h : (registerService g).getServiceInfo d = some info) :
    ∃ service method, (registerService g).getServicePtr g info.serviceType = some (some service) ∧
      service.method info.methodIndex = some method ∧ method.requestPrototype = d := by
  have hloop : ∀ n start (mgr : MgrMessage D), mgr.Filled g start →
      (∀ t, start ≤ t → t < start + n → t < g.serviceTypeMax) →
      ((List.range' start n).foldl (registerServiceType g) mgr).Filled g (start + n) := by
    intro n
    induction n with
    | zero => exact fun start mgr hm _ => hm
    | succ n ih =>
      intro start mgr hm hmax
      have hm' := filled_registerServiceType hg hm (hmax start (Nat.le_refl _) (by omega))
      have hstart : start + (n + 1) = start + 1 + n := by omega
      rw [List.range'_succ, List.foldl_cons, hstart]
      exact ih (start + 1) _ hm' fun t hle hlt => hmax t (by omega) (by omega)
  have hfilled := hloop (g.serviceTypeMax - (g.serviceTypeMin + 1)) (g.serviceTypeMin + 1)
    { mArrayService := List.replicate g.serviceTypeMax none
      mMapRequest2ServiceInfo := fun _ => none }
    ⟨List.length_replicate, by simp, by simp [List.getElem?_replicate]⟩ fun t _ _ => by omega
  obtain ⟨⟨t, i, service, method, ht, hi, hs, hm, hd, hv⟩, -⟩ := hfilled.has d info h
  refine ⟨service, method, ?_, ?_, hd⟩
  · rw [MgrMessage.getServicePtr, ht, hv, Bool.not_true, if_neg Bool.noConfusion,
      if_pos (Int.natCast_nonneg t), Int.toNat_natCast]
    exact hs
  · rw [Service.method, hi, if_pos (Int.natCast_nonneg i), Int.toNat_natCast]
    exact hm

end

end ThirdPersonMP.Rpc
