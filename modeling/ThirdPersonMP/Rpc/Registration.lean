import ThirdPersonMP.Library.Indexed
import ThirdPersonMP.Rpc.Dispatch

/-!
# Registration of the services

Every service class registers itself in `MgrDynamicFactory` before `main`, under the type
name that `ReadTypeName` makes of `typeid(T).name()` (`create_dynamic.h`, 50–87,
`MgrDynamicFactory.cpp`, 7–30 and 76–89). The order of these static initializations is not
specified. `registerService` then asks for the class of each service type and for its stub: a
stub replaces its service in `m_arrayService`, while the entries of `m_mapRequest2ServiceInfo`
stay until a later method with the same request overwrites them.

`Generated` takes what the factory creates as given; here it is the factory of the classes
that are registered (`Generated.withFactory`).

* `exists_run_registor` — registering classes with different names succeeds, and the
  factory creates each under its name.
* `mem_created` — `registerService` goes through the methods of the classes that are registered
  under the name of a service type, or of its stub.
* `getServiceInfo_eq` — the entry of a request is that of the last method that takes it.
* `registration_ok` — the factory holds the classes; the tables are consistent and complete, do
  not depend on the order, and whatever `Send` accepts is found again when its response arrives.
-/

namespace ThirdPersonMP.Rpc

open Base Library

variable {M D : Type*}

/-! ### The factory -/

/-- `ReadTypeName` (7–30): with `__GNUC__` the name is demangled by `abi::__cxa_demangle`,
without it the class key in front of the first blank is taken away. -/
def readTypeName (cxaDemangle : Option (String → String)) (name : String) : String :=
  match cxaDemangle with
  | some demangle => demangle name
  | none =>
    match name.toList.span (· ≠ ' ') with
    | (_, []) => name
    | (prev, _ :: p) =>
      -- `memcmp` of `prev_len` characters
      if ["class", "struct", "enum", "union"].any (prev.isPrefixOf ·.toList) then
        String.ofList p
      else name

/-- `MgrDynamicFactory`: a `CreateServiceFunc` is what it creates. -/
structure MgrDynamicFactory (D : Type*) where
  /-- `m_mapCreateService`. -/
  mMapCreateService : AList (fun _ : String => Service D) := ∅

namespace MgrDynamicFactory

/-- `RegistService` (76–81); `insert` leaves an entry that is there. -/
def registService (factory : MgrDynamicFactory D) (cxaDemangle : Option (String → String))
    (name : String) (func : Option (Service D)) : Bool × MgrDynamicFactory D :=
  match func with
  | none => (false, factory)
  | some func =>
    let typeName := readTypeName cxaDemangle name
    if typeName ∈ factory.mMapCreateService then (false, factory)
    else (true, { mMapCreateService := factory.mMapCreateService.insert typeName func })

/-- `CreateService` (83–89). -/
def createService (factory : MgrDynamicFactory D) (typeName : String) : Option (Service D) :=
  if typeName = "" then none else factory.mMapCreateService.lookup typeName

end MgrDynamicFactory

/-- A class derived from `CreateDynamicService`. -/
structure ServiceClass (D : Type*) where
  /-- `typeid(T).name()`. -/
  name : String
  /-- What `CreateObject` creates. -/
  service : Service D

/-- The type name of a class. -/
def ServiceClass.typeName (cxaDemangle : Option (String → String)) (c : ServiceClass D) : String :=
  readTypeName cxaDemangle c.name

/-- `CreateDynamicService::Registor`, the registration of a class; `none` when it asserts. -/
def registor (cxaDemangle : Option (String → String)) (factory : MgrDynamicFactory D)
    (c : ServiceClass D) : Option (MgrDynamicFactory D) :=
  match factory.registService cxaDemangle c.name (some c.service) with
  | (true, factory) => some factory
  | (false, _) => none

/-- The generated code, with the factory as it is when the classes are registered. -/
def Generated.withFactory (g : Generated D) (factory : MgrDynamicFactory D) : Generated D :=
  { g with createService := factory.createService }

/-! ### What the factory creates -/

section

variable {cxaDemangle : Option (String → String)} {factory : MgrDynamicFactory D}
  {classes : List (ServiceClass D)}

/-- The entries of the factory are the classes, each under its type name. -/
def MgrDynamicFactory.Holds (factory : MgrDynamicFactory D)
    (cxaDemangle : Option (String → String)) (classes : List (ServiceClass D)) : Prop :=
  ∀ typeName service, factory.mMapCreateService.lookup typeName = some service ↔
    ∃ c ∈ classes, c.typeName cxaDemangle = typeName ∧ c.service = service

/-- One more class registers itself, under a name that no other has. -/
theorem MgrDynamicFactory.Holds.registor (h : factory.Holds cxaDemangle classes)
    {c : ServiceClass D} (hnew : c.typeName cxaDemangle ∉ classes.map (·.typeName cxaDemangle)) :
    ∃ factory', registor cxaDemangle factory c = some factory' ∧
      factory'.Holds cxaDemangle (classes ++ [c]) := by
  have hnone : factory.mMapCreateService.lookup (c.typeName cxaDemangle) = none := by
    rw [Option.eq_none_iff_forall_ne_some]
    intro service hs
    obtain ⟨c', hc', hname, -⟩ := (h _ service).mp hs
    exact hnew (List.mem_map.mpr ⟨c', hc', hname⟩)
  have hmem : readTypeName cxaDemangle c.name ∉ factory.mMapCreateService :=
    AList.lookup_eq_none.mp hnone
  refine ⟨⟨factory.mMapCreateService.insert (c.typeName cxaDemangle) c.service⟩, ?_, ?_⟩
  · rw [Rpc.registor, MgrDynamicFactory.registService]
    simp only [hmem, if_false, ServiceClass.typeName]
  · intro typeName service
    simp only [List.mem_append, List.mem_singleton]
    by_cases hname : typeName = c.typeName cxaDemangle
    · subst hname
      rw [AList.lookup_insert]
      constructor
      · intro hs
        exact ⟨c, .inr rfl, rfl, Option.some.inj hs⟩
      · rintro ⟨c', hc' | rfl, hc, rfl⟩
        · exact absurd (List.mem_map.mpr ⟨c', hc', hc⟩) hnew
        · rfl
    · rw [AList.lookup_insert_ne hname, h]
      constructor
      · rintro ⟨c', hc', hc⟩
        exact ⟨c', .inl hc', hc⟩
      · rintro ⟨c', hc' | rfl, hc⟩
        · exact ⟨c', hc', hc⟩
        · exact absurd hc.1.symm hname

/-- **Classes with different type names register themselves** without an assertion, and the
factory holds just these. -/
theorem exists_run_registor (hnodup : (classes.map (·.typeName cxaDemangle)).Nodup) :
    ∃ factory, run (registor cxaDemangle) {} classes = some factory ∧
      factory.Holds cxaDemangle classes := by
  induction classes using List.reverseRecOn with
  | nil => exact ⟨{}, rfl, fun typeName service => by simp⟩
  | append_singleton classes c ih =>
    rw [List.map_append, List.map_singleton, ← List.concat_eq_append, List.nodup_concat] at hnodup
    obtain ⟨factory, hrun, hholds⟩ := ih hnodup.2
    obtain ⟨factory', hc, hholds'⟩ := hholds.registor hnodup.1
    exact ⟨factory', (run_concat _).mpr ⟨factory, hrun, hc⟩, hholds'⟩

/-- The order of the classes does not matter. -/
theorem MgrDynamicFactory.Holds.perm {classes' : List (ServiceClass D)}
    (h : factory.Holds cxaDemangle classes') (hperm : classes'.Perm classes) :
    factory.Holds cxaDemangle classes := by
  intro typeName service
  rw [h typeName service]
  simp only [hperm.mem_iff]

/-- What `CreateService` creates. -/
theorem MgrDynamicFactory.Holds.createService (h : factory.Holds cxaDemangle classes)
    {typeName : String} {service : Service D} : factory.createService typeName = some service ↔
      typeName ≠ "" ∧ ∃ c ∈ classes, c.typeName cxaDemangle = typeName ∧ c.service = service := by
  unfold MgrDynamicFactory.createService
  by_cases hname : typeName = ""
  · simp [hname]
  · rw [if_neg hname, h]
    exact (and_iff_right hname).symm

/-- Factories that hold the same classes, registered in another order, create the same. -/
theorem MgrDynamicFactory.Holds.createService_eq {factory' : MgrDynamicFactory D}
    {classes' : List (ServiceClass D)} (h : factory.Holds cxaDemangle classes)
    (h' : factory'.Holds cxaDemangle classes') (hperm : classes'.Perm classes) :
    factory'.createService = factory.createService := by
  funext typeName
  refine Option.ext fun service => ?_
  rw [h'.createService, h.createService]
  simp only [hperm.mem_iff]

end

/-- What is assumed of the generated code and of the classes. -/
structure Assumed (g : Generated D) (cxaDemangle : Option (String → String))
    (classes : List (ServiceClass D)) : Prop where
  /-- A named service type is valid. -/
  valid : ∀ t, g.eServiceTypeName t ≠ "" → g.eServiceTypeIsValid t = true
  /-- No class is registered under the type name of a service type without a name. -/
  unnamed : ∀ c ∈ classes,
    c.typeName cxaDemangle ≠ "RPC::" ∧ c.typeName cxaDemangle ≠ "RPC::_Stub"
  /-- A service and its stub have one descriptor. -/
  stub : ∀ t, ∀ c ∈ classes, ∀ c' ∈ classes,
    c.typeName cxaDemangle = "RPC::" ++ g.eServiceTypeName t →
    c'.typeName cxaDemangle = "RPC::" ++ g.eServiceTypeName t ++ "_Stub" →
    c'.service.methods = c.service.methods

/-- Then the generated code with the factory is as the source relies on. -/
theorem Assumed.lawful {g : Generated D} {cxaDemangle : Option (String → String)}
    {classes : List (ServiceClass D)} {factory : MgrDynamicFactory D}
    (h : Assumed g cxaDemangle classes) (hf : factory.Holds cxaDemangle classes) :
    (g.withFactory factory).Lawful := by
  have hcreate : ∀ typeName service, (g.withFactory factory).createService typeName = some service →
      ∃ c ∈ classes, c.typeName cxaDemangle = typeName ∧ c.service = service := by
    intro typeName service hs
    rw [Generated.withFactory] at hs
    exact (hf.createService.mp hs).2
  have hnone : ∀ typeName, (∀ c ∈ classes, c.typeName cxaDemangle ≠ typeName) →
      (g.withFactory factory).createService typeName = none := by
    intro typeName hne
    rw [Option.eq_none_iff_forall_ne_some]
    intro service hs
    obtain ⟨c, hc, hname, -⟩ := hcreate typeName service hs
    exact hne c hc hname
  refine ⟨h.valid, ⟨hnone _ fun c hc => (h.unnamed c hc).1, hnone _ fun c hc => (h.unnamed c hc).2⟩,
    fun t service stub hs hs' => ?_⟩
  obtain ⟨c, hc, hname, rfl⟩ := hcreate _ service hs
  obtain ⟨c', hc', hname', rfl⟩ := hcreate _ stub hs'
  exact h.stub t c hc c' hc' hname hname'

/-! ### The last method wins -/

/-- The index of a method is in range. -/
theorem Service.inRange_of_method {service : Service D} {index : ℤ} {method : MethodDescriptor D}
    (h : service.method index = some method) : InRange index service.methods.length := by
  unfold Service.method at h
  split at h
  · have := (List.getElem?_eq_some_iff.mp h).1
    exact ⟨‹_›, by omega⟩
  · cases h

section

variable (g : Generated D)

/-- A method of a service or stub that was created for a service type. -/
structure Created (D : Type*) where
  serviceType : ℕ
  methodIndex : ℕ
  method : MethodDescriptor D

/-- The entry of the method. -/
def Created.info (c : Created D) : SServiceInfo :=
  let (from_, to_) := getServiceFromTo (g.eServiceTypeName c.serviceType)
  ⟨c.serviceType, c.methodIndex, from_, to_⟩

/-- The methods of the service that is created under a name. -/
def createdAs (serviceType : ℕ) (serviceTypeName : String) : List (Created D) :=
  match g.createService serviceTypeName with
  | none => []
  | some service => service.methods.zipIdx.map fun (method, i) => ⟨serviceType, i, method⟩

/-- The methods of a service type, those of its service and then those of its stub. -/
def createdFor (serviceType : ℕ) : List (Created D) :=
  createdAs g serviceType ("RPC::" ++ g.eServiceTypeName serviceType) ++
    createdAs g serviceType ("RPC::" ++ g.eServiceTypeName serviceType ++ "_Stub")

/-- All methods, in the order of the service types. -/
def created : List (Created D) :=
  (List.range' (g.serviceTypeMin + 1) (g.serviceTypeMax - (g.serviceTypeMin + 1))).flatMap
    (createdFor g)

variable {g} in
/-- A method of a service that is created under a name. -/
theorem mem_createdAs {t : ℕ} {name : String} {c : Created D} :
    c ∈ createdAs g t name ↔ c.serviceType = t ∧
      ∃ service, g.createService name = some service ∧
        service.methods[c.methodIndex]? = some c.method := by
  unfold createdAs
  cases g.createService name with
  | none => simp
  | some service =>
    simp only [List.mem_map, Prod.exists, List.mem_zipIdx_iff_getElem?, Option.some.injEq,
      exists_eq_left']
    constructor
    · rintro ⟨method, i, hi, rfl⟩
      exact ⟨rfl, hi⟩
    · rintro ⟨rfl, hi⟩
      exact ⟨c.method, c.methodIndex, hi, rfl⟩

variable {g} in
/-- A method of a service type, or of its stub. -/
theorem mem_created {c : Created D} :
    c ∈ created g ↔ (g.serviceTypeMin < c.serviceType ∧ c.serviceType < g.serviceTypeMax) ∧
      ∃ name service, (name = "RPC::" ++ g.eServiceTypeName c.serviceType ∨
          name = "RPC::" ++ g.eServiceTypeName c.serviceType ++ "_Stub") ∧
        g.createService name = some service ∧ service.methods[c.methodIndex]? = some c.method := by
  simp only [created, createdFor, List.mem_flatMap, List.mem_range'_1, List.mem_append,
    mem_createdAs]
  constructor
  · rintro ⟨t, ht, ⟨rfl, service, hs, hm⟩ | ⟨rfl, service, hs, hm⟩⟩
    · exact ⟨by omega, _, service, .inl rfl, hs, hm⟩
    · exact ⟨by omega, _, service, .inr rfl, hs, hm⟩
  · rintro ⟨ht, name, service, rfl | rfl, hs, hm⟩
    · exact ⟨c.serviceType, by omega, .inl ⟨rfl, service, hs, hm⟩⟩
    · exact ⟨c.serviceType, by omega, .inr ⟨rfl, service, hs, hm⟩⟩

/-- The methods that `registerService` goes through are those of the registered classes: of the
class of a service type, and of the class of its stub. -/
def CreatesRegistered (cxaDemangle : Option (String → String)) (classes : List (ServiceClass D)) :
    Prop :=
  ∀ c : Created D, c ∈ created g ↔
    (g.serviceTypeMin < c.serviceType ∧ c.serviceType < g.serviceTypeMax) ∧
      ∃ k ∈ classes, (k.typeName cxaDemangle = "RPC::" ++ g.eServiceTypeName c.serviceType ∨
          k.typeName cxaDemangle = "RPC::" ++ g.eServiceTypeName c.serviceType ++ "_Stub") ∧
        k.service.methods[c.methodIndex]? = some c.method

variable {g} in
/-- A factory that holds the classes creates what they do. -/
theorem MgrDynamicFactory.Holds.createsRegistered {cxaDemangle : Option (String → String)}
    {classes : List (ServiceClass D)} {factory : MgrDynamicFactory D}
    (h : factory.Holds cxaDemangle classes) :
    CreatesRegistered (g.withFactory factory) cxaDemangle classes := by
  -- neither of the two names is the empty string
  have hne : ∀ name : String, "RPC::" ++ name ≠ "" := by
    intro name hname
    have hlen := congrArg String.length hname
    rw [String.length_append] at hlen
    have : "RPC::".length = 5 := rfl
    have : "".length = 0 := rfl
    omega
  intro c
  rw [mem_created]
  refine and_congr_right fun _ => ⟨?_, ?_⟩
  · rintro ⟨name, service, hname, hs, hm⟩
    obtain ⟨-, k, hk, rfl, rfl⟩ := h.createService.mp hs
    exact ⟨k, hk, hname, hm⟩
  · rintro ⟨k, hk, hname, hm⟩
    refine ⟨_, k.service, hname, h.createService.mpr ⟨?_, k, hk, rfl, rfl⟩, hm⟩
    rcases hname with hname | hname
    · exact hname ▸ hne _
    · rw [hname, String.append_assoc]
      exact hne _

variable [DecidableEq D]

/-- The entries of some methods are written. -/
def writeInfos (map : D → Option SServiceInfo) (cs : List (Created D)) : D → Option SServiceInfo :=
  cs.foldl (fun map c => Function.update map c.method.requestPrototype (some (c.info g))) map

variable {g}

/-- The loop over the methods. -/
theorem registerMethods_eq (t i : ℕ) (methods : List (MethodDescriptor D))
    (map : D → Option SServiceInfo) : registerMethods g t i methods map =
      writeInfos g map ((methods.zipIdx i).map fun (method, i) => ⟨t, i, method⟩) := by
  induction methods generalizing i map with
  | nil => rfl
  | cons method methods ih =>
    rw [registerMethods, List.zipIdx_cons, List.map_cons, writeInfos, List.foldl_cons, ← writeInfos]
    exact ih (i + 1) _

/-- `funcParseService` writes the entries of the service it creates. -/
theorem funcParseService_mMap (t : ℕ) (mgr : MgrMessage D) (name : String) :
    (funcParseService g t mgr name).mMapRequest2ServiceInfo =
      writeInfos g mgr.mMapRequest2ServiceInfo (createdAs g t name) := by
  unfold funcParseService createdAs
  cases g.createService name with
  | none => rfl
  | some service => exact registerMethods_eq t 0 service.methods _

/-- A round of the loop of `registerService` writes the entries of a service type. -/
theorem registerServiceType_mMap (mgr : MgrMessage D) (t : ℕ) :
    (registerServiceType g mgr t).mMapRequest2ServiceInfo =
      writeInfos g mgr.mMapRequest2ServiceInfo (createdFor g t) := by
  rw [registerServiceType, funcParseService_mMap, funcParseService_mMap, createdFor, writeInfos,
    writeInfos, writeInfos, List.foldl_append]

/-- `registerService` writes the entries of all methods. -/
theorem registerService_mMap : (registerService g).mMapRequest2ServiceInfo =
    writeInfos g (fun _ => none) (created g) := by
  have hloop : ∀ (ts : List ℕ) (mgr : MgrMessage D),
      (ts.foldl (registerServiceType g) mgr).mMapRequest2ServiceInfo =
        writeInfos g mgr.mMapRequest2ServiceInfo (ts.flatMap (createdFor g)) := by
    intro ts
    induction ts with
    | nil => exact fun _ => rfl
    | cons t ts ih =>
      intro mgr
      rw [List.foldl_cons, ih, registerServiceType_mMap, List.flatMap_cons, writeInfos, writeInfos,
        writeInfos, List.foldl_append]
  rw [registerService, hloop, created]

/-- **The last method wins**: `GetServiceInfo` returns, for a request, the entry of the last
method created that takes it. -/
theorem getServiceInfo_eq (d : D) : (registerService g).getServiceInfo d =
    ((created g).filter (·.method.requestPrototype = d)).getLast?.map (Created.info g) := by
  rw [MgrMessage.getServiceInfo, registerService_mMap, writeInfos,
    foldl_update (fun c : Created D => c.method.requestPrototype) (fun c => some (c.info g))]
  cases ((created g).filter (·.method.requestPrototype = d)).getLast? <;> rfl

/-- A method is found when no method of another index or service takes its request. -/
theorem getServiceInfo_of_unique {c : Created D} (hc : c ∈ created g)
    (huniq : ∀ c' ∈ created g, c'.method.requestPrototype = c.method.requestPrototype →
      c'.serviceType = c.serviceType ∧ c'.methodIndex = c.methodIndex) :
    (registerService g).getServiceInfo c.method.requestPrototype = some (c.info g) := by
  rw [MgrMessage.getServiceInfo, registerService_mMap]
  refine @foldl_update_of_mem _ _ _ _ (fun c : Created D => c.method.requestPrototype)
    (fun c => some (c.info g)) _ _ c hc fun c' hc' hd => ?_
  obtain ⟨ht, hi⟩ := huniq c' hc' hd
  rw [Created.info, Created.info, ht, hi]

/-- What the tables of `registerService` are to be. -/
structure TablesOk (g : Generated D) : Prop where
  /-- What `GetServiceInfo` returns for a request is of a service that there is, and of one
  of its methods, which takes the request. -/
  consistent : ∀ d info, (registerService g).getServiceInfo d = some info →
    ∃ service method,
      (registerService g).getServicePtr g info.serviceType = some (some service) ∧
      InRange info.methodIndex service.methods.length ∧
      service.method info.methodIndex = some method ∧ method.requestPrototype = d
  /-- It is the last one created that takes it. -/
  last : ∀ d, (registerService g).getServiceInfo d =
    ((created g).filter (·.method.requestPrototype = d)).getLast?.map (Created.info g)
  /-- Every method is returned for its request, when no two have the same. -/
  complete : (∀ c ∈ created g, ∀ c' ∈ created g,
      c'.method.requestPrototype = c.method.requestPrototype →
      c'.serviceType = c.serviceType ∧ c'.methodIndex = c.methodIndex) →
    ∀ c ∈ created g,
      (registerService g).getServiceInfo c.method.requestPrototype = some (c.info g)

/-- **The tables are consistent and complete.** -/
theorem tablesOk (hg : g.Lawful) : TablesOk g := by
  refine ⟨fun d info hi => ?_, getServiceInfo_eq, fun huniq c hc => ?_⟩
  · obtain ⟨service, method, hs, hm, hd⟩ := registerService_consistent hg hi
    exact ⟨service, method, hs, Service.inRange_of_method hm, hm, hd⟩
  · exact getServiceInfo_of_unique hc (huniq c hc)

/-! ### What `Send` accepts is found again -/

variable {P : Protobuf M D} {p p' : Peer M}

/-- The service and the method of every request that `Send` accepted are there, and the
method takes the request. -/
def AcceptedFound (P : Protobuf M D) (g : Generated D) (p : Peer M) : Prop :=
  ∀ id request serviceType methodIndex,
    .accepted id request serviceType methodIndex ∈ p.trace →
      ∃ method, Finds g serviceType methodIndex method ∧
        method.requestPrototype = P.getDescriptor request

namespace AcceptedFound

/-- Events of another kind. -/
theorem quiet (h : AcceptedFound P g p) (new : List (Event M)) (ht : p'.trace = p.trace ++ new)
    (hnew : acceptedIds new = []) : AcceptedFound P g p' := by
  intro id request s m he
  rw [ht, List.mem_append] at he
  refine h id request s m (he.resolve_right fun he => ?_)
  have := mem_acceptedIds.mpr ⟨request, s, m, he⟩
  rw [hnew] at this
  cases this

/-- A call of the user's code. -/
theorem actStep (hg : g.Lawful) (h : AcceptedFound P g p) {a : Act M} (hs : ActStep P g p a p') :
    AcceptedFound P g p' := by
  cases hs with
  | @send request info hi =>
    intro id r s m he
    rw [sendRequest_trace, List.mem_append, List.mem_singleton] at he
    rcases he with he | he
    · exact h id r s m he
    · cases he
      obtain ⟨service, method, hs, hm, hd⟩ := registerService_consistent hg hi
      exact ⟨method, ⟨service, hs, hm⟩, hd⟩
  | doDelayResponse hx hr => exact h.quiet [.reply _ _] rfl rfl
  | noSend | newDelayResponse | fill | noDelayResponse | dropDelayResponse | setAccid => exact h

/-- The calls of a handler or a callback. -/
theorem acts (hg : g.Lawful) (h : AcceptedFound P g p) {acts : List (Act M)}
    (ha : run (Peer.act P g) p acts = some p') : AcceptedFound P g p' :=
  run_invariant (Peer.act P g) h (fun _ _ _ h hs => h.actStep hg (ActStep.of_act hs)) ha

/-- A message of the other side. -/
theorem onMessage (hg : g.Lawful) (h : AcceptedFound P g p) {message : RpcMessage}
    {handler : Handler M} {callback : List (Act M)}
    (hs : OnMessage P g p message handler callback p') : AcceptedFound P g p' := by
  have hcalled : ∀ request, AcceptedFound P g (p.called message request) := fun request =>
    h.quiet [.callMethod message.id request message.service message.method] rfl rfl
  cases hs with
  | other | emptyResponse | notFound | stubNoService | noService | wrongProto => exact h
  | callback ht hr hl hm ha =>
    exact acts hg (h.quiet [.doneCallback message.id _ _ _ _] rfl rfl) ha
  | noReply ht hm hp ha hn => exact acts hg (hcalled _) ha
  | reply ht hm hp ha hne hd hr => exact (acts hg (hcalled _) ha).quiet [.reply _ _] rfl rfl

end AcceptedFound

/-- In every run, the service and the method of what was accepted are there. -/
theorem acceptedFound_run (hg : g.Lawful) {d : UInt64} {labels : List (Label M)}
    (h : run (Peer.step P g) { mDelayResponseId := d } labels = some p) : AcceptedFound P g p := by
  have hstart : AcceptedFound P g { mDelayResponseId := d } := fun _ _ _ _ he => by cases he
  exact invariant_peer_run hstart (fun _ _ _ hp hs => hp.actStep hg hs)
    (fun _ _ _ _ _ hp hs => hp.onMessage hg hs) h

/-- A response to an outstanding call whose service and method are found reaches
`Service::DoneCallback`. -/
theorem stubHandleResponseMsg_eq {message : RpcMessage} {out : OutstandingCall M}
    {method : MethodDescriptor D} (hr : message.response ≠ [])
    (hl : p.mOutstandings.lookup message.id = some out)
    (hm : Finds g out.serviceType out.methodIndex method) :
    p.stubHandleResponseMsg P g message = some (p.completed message.id out
      (P.parseFromString method.responsePrototype message.response).1, true) := by
  obtain ⟨service, hs, hm⟩ := hm
  rw [Peer.stubHandleResponseMsg, if_neg hr]
  simp only [hl, hs, hm]
  rfl

/-- In every run, the service and the method of every request that `Send` accepted are
there, and a response to an outstanding one reaches `Service::DoneCallback`. -/
def SendsFound (P : Protobuf M D) (g : Generated D) : Prop :=
  ∀ (d : UInt64) (labels : List (Label M)) (p : Peer M),
    run (Peer.step P g) { mDelayResponseId := d } labels = some p →
    AcceptedFound P g p ∧
    ∀ message out, p.mOutstandings.lookup message.id = some out → message.response ≠ [] →
      ∃ method : MethodDescriptor D, method.requestPrototype = P.getDescriptor out.request ∧
        p.stubHandleResponseMsg P g message = some (p.completed message.id out
          (P.parseFromString method.responsePrototype message.response).1, true)

/-- Consistent tables find what `Send` accepts. -/
theorem sendsFound (P : Protobuf M D) (hg : g.Lawful) : SendsFound P g := by
  intro d labels p h
  have hfound := acceptedFound_run hg h
  refine ⟨hfound, fun message out hl hr => ?_⟩
  obtain ⟨method, hm, hd⟩ := hfound _ _ _ _ ((matched_run h).outstanding message.id out hl)
  exact ⟨method, hd, stubHandleResponseMsg_eq hr hl hm⟩

/-- **Registration**: classes with different type names register themselves in any order, and
the factory then holds just these; the tables that `registerService` fills with their methods
are consistent and complete, and the same for every order; and the service and the method of
every request that `Send` accepts are found again. -/
theorem registration_ok (P : Protobuf M D) {cxaDemangle : Option (String → String)}
    {classes : List (ServiceClass D)} (hg : Assumed g cxaDemangle classes)
    (hnodup : (classes.map (·.typeName cxaDemangle)).Nodup) :
    ∃ factory, run (registor cxaDemangle) {} classes = some factory ∧
      factory.Holds cxaDemangle classes ∧
      CreatesRegistered (g.withFactory factory) cxaDemangle classes ∧
      TablesOk (g.withFactory factory) ∧ SendsFound P (g.withFactory factory) ∧
      ∀ classes', classes'.Perm classes →
        ∃ factory', run (registor cxaDemangle) {} classes' = some factory' ∧
          factory'.Holds cxaDemangle classes ∧
          registerService (g.withFactory factory') = registerService (g.withFactory factory) := by
  obtain ⟨factory, hrun, hholds⟩ := exists_run_registor hnodup
  have hlawful := hg.lawful hholds
  refine ⟨factory, hrun, hholds, hholds.createsRegistered, tablesOk hlawful,
    sendsFound P hlawful, fun classes' hperm => ?_⟩
  obtain ⟨factory', hrun', hholds'⟩ :=
    exists_run_registor ((hperm.map (·.typeName cxaDemangle)).nodup_iff.mpr hnodup)
  refine ⟨factory', hrun', hholds'.perm hperm, ?_⟩
  rw [Generated.withFactory, hholds.createService_eq hholds' hperm, ← Generated.withFactory]

end

/-! ### The sign-in classes -/

section

open SignIn

/-- A service and its stub, and a stub whose service is another side's. -/
def signInClasses : List (ServiceClass Desc) :=
  [⟨"class RPC::C2A_UserService_Stub", userService⟩,
    ⟨"class RPC::C2G_SceneService_Stub", sceneService⟩,
    ⟨"class RPC::C2A_UserService", userService⟩]

/-- The stub of `C2A_UserService`, which was registered before it, has its descriptor. -/
theorem signInClasses_assumed : Assumed generated none signInClasses := by
  refine ⟨generated_lawful.valid, by decide, fun t c hc c' hc' hname hname' => ?_⟩
  rw [← hname] at hname'
  simp only [signInClasses, List.mem_cons, List.not_mem_nil, or_false] at hc hc'
  rcases hc with rfl | rfl | rfl <;> rcases hc' with rfl | rfl | rfl <;>
    first | rfl | exact absurd hname' (by decide)

/-- The sign-in classes can be registered, and then the stub of `C2A_UserService` is found for
the request to sign in: its service type is `1` and the method its first. -/
theorem registration_ok_signIn :
    ∃ factory, run (registor none) {} signInClasses = some factory ∧
      factory.Holds none signInClasses ∧
      CreatesRegistered (generated.withFactory factory) none signInClasses ∧
      TablesOk (generated.withFactory factory) ∧
      SendsFound protobuf (generated.withFactory factory) ∧
      (registerService (generated.withFactory factory)).getServiceInfo .userSignInArg =
        some ⟨1, 0, .client, .gateServer⟩ := by
  obtain ⟨factory, hrun, hholds, hcreates, hok, hfound, -⟩ :=
    registration_ok protobuf signInClasses_assumed (by decide)
  have hentry : ∀ factory ∈ run (registor none) {} signInClasses,
      (registerService (generated.withFactory factory)).getServiceInfo .userSignInArg =
        some ⟨1, 0, .client, .gateServer⟩ := by
    decide
  exact ⟨factory, hrun, hholds, hcreates, hok, hfound, hentry factory hrun⟩

end

end ThirdPersonMP.Rpc
