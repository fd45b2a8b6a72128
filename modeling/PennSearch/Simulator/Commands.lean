import PennSearch.Simulator.Script

/-!
# The commands of `SimulatorMain`

`ProcessCommandTokens` turns a command line into calls of four operations, and each
of them guards the numbers it was given before it indexes the node container or the
array of links. `run` is what a call does, every index that it takes included.
`LinkOperation` joins the two halves of its guard by `&&` and compares with `>`, so
it is the one that indexes outside the topology.

Node pointers are represented by the numbers `id`. What the applications and the
routing protocols do with a command is not part of this module.
-/

namespace PennSearch

/-! ## The topology -/

/-- A device: the node it belongs to, and the number of its interface there. -/
structure NetDevice where
  node : ℕ
  ifIndex : UInt32
deriving DecidableEq

/-- The routing protocols that a list of them can hold. -/
inductive RoutingProtocol
  | ls
  | dv
  | other
deriving DecidableEq

/-- A node: whether it has an `Ipv4`, its devices with the devices on their channels,
and the protocols of its list routing. -/
structure SimulatedNode where
  id : ℕ
  ipv4 : Bool
  devices : List (NetDevice × Option (List NetDevice))
  listRouting : Option (List RoutingProtocol)

/-- What `Start` sets up. On the real stack there is one node, and `m_ndc` is null;
otherwise it has the two devices of every link. -/
structure SimulatorMain where
  nodeContainer : List SimulatedNode
  ndc : Option (List (NetDevice × Option NetDevice))
  totalNodes : UInt32
  totalLinks : UInt32
  realStack : Bool
  length_nodeContainer : nodeContainer.length = totalNodes.toNat
  length_ndc : ∀ devices, ndc = some devices → devices.length = totalLinks.toNat

/-- A call that a command line leads to, now or through `Simulator::Schedule`. -/
inductive SimulatorCall
  | stop
  | linkOperation (linkNumber : UInt32) (isUp : Bool)
  | p2pOperation (nodeANum nodeBNum : UInt32) (isUp : Bool)
  | allInterfacesOperation (nodeNumber : UInt32) (isUp : Bool)
  | processNodeCommandTokens (nodeNumber : UInt32) (tokens : List CxxString)
deriving DecidableEq

/-- What an operation does, in order. `fault` is the use of an element that is not
there. -/
inductive SimulatorAction
  | getNode (nodeNumber : UInt32)
  | getDevices (linkNumber : UInt32)
  | setInterface (node : ℕ) (ifIndex : UInt32) (isUp : Bool)
  | applicationCommand (node : ℕ) (tokens : List CxxString)
  | setApplicationVerbose (node : ℕ) (tokens : List CxxString)
  | routingCommand (node : ℕ) (protocol : RoutingProtocol) (tokens : List CxxString)
  | setRoutingVerbose (node : ℕ) (protocol : RoutingProtocol) (tokens : List CxxString)
  | fault
deriving DecidableEq

/-! ## Words and numbers -/

def quitWord : CxxString := [81, 85, 73, 84]
def linkWord : CxxString := [76, 73, 78, 75]
def nodeLinksWord : CxxString := [78, 79, 68, 69, 76, 73, 78, 75, 83]
def allWord : CxxString := [42]
def upWord : CxxString := [85, 80]
def downWord : CxxString := [68, 79, 87, 78]
def verbosityWord : CxxString := [86, 69, 82, 66, 79, 83, 73, 84, 89]
def verboseWord : CxxString := [86, 69, 82, 66, 79, 83, 69]

/-- `APP_MODULE_NAME`, `PENNSEARCH`. -/
def appModuleName : CxxString := [80, 69, 78, 78, 83, 69, 65, 82, 67, 72]
def appWord : CxxString := [65, 80, 80]

def lsModuleName : CxxString := [76, 83]

def dvModuleName : CxxString := [68, 86]

/-- The digits at the front of a text as a `uint32_t`. -/
def digitsValue32 (str : CxxString) : UInt32 :=
  let value := decimalValue (str.takeWhile isDigit)
  if 2 ^ 32 ≤ value then UInt32.ofNat (2 ^ 32 - 1) else UInt32.ofNat value

/-- `sin >> number` for a `uint32_t`, which is 0 when there is no number. -/
def extract32 (str : CxxString) : UInt32 :=
  match str.dropWhile isSpace with
  | 45 :: rest =>
      if 2 ^ 32 ≤ decimalValue (rest.takeWhile isDigit) then digitsValue32 rest
      else 0 - digitsValue32 rest
  | 43 :: rest => digitsValue32 rest
  | rest => digitsValue32 rest

namespace SimulatorMain

variable (s : SimulatorMain)

/-! ## The operations -/

/-- `m_nodeContainer.Get (nodeNumber)`, and what is done with the node. -/
def withNode (nodeNumber : UInt32) (use : SimulatedNode → List SimulatorAction) :
    List SimulatorAction :=
  .getNode nodeNumber ::
    match s.nodeContainer[nodeNumber.toNat]? with
    | none => [.fault]
    | some node => use node

def linkOperation (linkNumber : UInt32) (isUp : Bool) : List SimulatorAction :=
  if s.totalLinks < linkNumber ∧ s.ndc.isNone then []
  else .getDevices linkNumber ::
    match s.ndc.bind fun ndc => ndc[linkNumber.toNat]? with
    | none => [.fault]
    | some (_, none) => []
    | some (netDeviceA, some netDeviceB) =>
        [.setInterface netDeviceA.node netDeviceA.ifIndex isUp,
          .setInterface netDeviceB.node netDeviceB.ifIndex isUp]

def p2pOperation (nodeANum nodeBNum : UInt32) (isUp : Bool) : List SimulatorAction :=
  if s.totalNodes ≤ nodeANum ∨ s.totalNodes ≤ nodeBNum then []
  else
    s.withNode nodeANum fun nodeA =>
      s.withNode nodeBNum fun nodeB =>
        if nodeA.ipv4 = false ∨ nodeB.ipv4 = false then []
        else nodeA.devices.flatMap fun (device, channel) =>
          (channel.getD []).flatMap fun nodeDevice =>
            if nodeDevice.node = nodeB.id then
              [.setInterface nodeA.id device.ifIndex isUp,
                .setInterface nodeB.id nodeDevice.ifIndex isUp]
            else []

def allInterfacesOperation (nodeNumber : UInt32) (isUp : Bool) : List SimulatorAction :=
  if s.totalNodes ≤ nodeNumber then []
  else
    s.withNode nodeNumber fun node =>
      if node.ipv4 = false then []
      else (List.range node.devices.length).map fun i =>
        .setInterface node.id (UInt32.ofNat i) isUp

/-- The command of an application or of a routing protocol, or its verbosity. -/
def commandOrVerbosity (tokens : List CxxString)
    (command verbose : List CxxString → SimulatorAction) : List SimulatorAction :=
  match tokens with
  | [] => []
  | first :: rest =>
      if upperCase first = verbosityWord ∨ upperCase first = verboseWord then
        if rest = [] then [] else [verbose rest]
      else [command tokens]

/-- The branch of `ProcessNodeCommandTokens` for a routing protocol: the first one of
this kind takes the command. -/
def routingTokens (nodeNumber : UInt32) (protocol : RoutingProtocol)
    (tokens : List CxxString) : List SimulatorAction :=
  s.withNode nodeNumber fun node =>
    if node.ipv4 = false then []
    else if protocol ∈ node.listRouting.getD [] then
      commandOrVerbosity tokens (.routingCommand node.id protocol)
        (.setRoutingVerbose node.id protocol)
    else []

/-- `ProcessNodeCommandTokens`. A `SIM` command does nothing. -/
def processNodeCommandTokens (nodeNumber : UInt32) (tokens : List CxxString) :
    List SimulatorAction :=
  if s.totalNodes ≤ nodeNumber then []
  else
    match tokens with
    | [] => []
    | [_] => []
    | first :: rest =>
        if upperCase first = appModuleName ∨ upperCase first = appWord then
          s.withNode nodeNumber fun node =>
            commandOrVerbosity rest (.applicationCommand node.id) (.setApplicationVerbose node.id)
        else if upperCase first = lsModuleName then s.routingTokens nodeNumber .ls rest
        else if upperCase first = dvModuleName then s.routingTokens nodeNumber .dv rest
        else []

def run : SimulatorCall → List SimulatorAction
  | .stop => []
  | .linkOperation linkNumber isUp => s.linkOperation linkNumber isUp
  | .p2pOperation nodeANum nodeBNum isUp => s.p2pOperation nodeANum nodeBNum isUp
  | .allInterfacesOperation nodeNumber isUp => s.allInterfacesOperation nodeNumber isUp
  | .processNodeCommandTokens nodeNumber tokens => s.processNodeCommandTokens nodeNumber tokens

/-! ## Command lines -/

def downOrUp (operation : CxxString) (call : Bool → SimulatorCall) : List SimulatorCall :=
  if upperCase operation = downWord then [call false]
  else if upperCase operation = upWord then [call true]
  else []

/-- `ProcessCommandTokens`, on the tokens of a line. On the real stack the line names no
node, and all its tokens go to node 0. -/
def processCommandTokens : List CxxString → List SimulatorCall
  | [] => []
  | first :: arguments =>
      if first.head? = some 35 then []
      else if upperCase first = quitWord then [.stop]
      else if upperCase first = timeWord then []
      else if arguments = [] then []
      else if upperCase first = linkWord then
        match arguments with
        | [operation, number] => downOrUp operation (.linkOperation (extract32 number))
        | [operation, numberA, numberB] =>
            downOrUp operation (.p2pOperation (extract32 numberA) (extract32 numberB))
        | _ => []
      else if upperCase first = nodeLinksWord then
        match arguments with
        | [operation, number] => downOrUp operation (.allInterfacesOperation (extract32 number))
        | _ => []
      else if upperCase first = allWord then
        (List.range s.totalNodes.toNat).map fun i =>
          .processNodeCommandTokens (UInt32.ofNat i) arguments
      else if s.realStack then [.processNodeCommandTokens 0 (upperCase first :: arguments)]
      else if s.totalNodes ≤ extract32 (upperCase first) then []
      else [.processNodeCommandTokens (extract32 (upperCase first)) arguments]

/-! ## Indices within the topology -/

/-- The index is one of the container or of the array, which is there. -/
def InBounds : SimulatorAction → Prop
  | .getNode nodeNumber => nodeNumber < s.totalNodes
  | .getDevices linkNumber => s.ndc.isSome ∧ linkNumber < s.totalLinks
  | .fault => False
  | _ => True

def Names : SimulatorCall → Prop
  | .stop => True
  | .linkOperation linkNumber _ => s.ndc.isSome ∧ linkNumber < s.totalLinks
  | .p2pOperation nodeANum nodeBNum _ => nodeANum < s.totalNodes ∧ nodeBNum < s.totalNodes
  | .allInterfacesOperation nodeNumber _ => nodeNumber < s.totalNodes
  | .processNodeCommandTokens nodeNumber _ => nodeNumber < s.totalNodes

/-- A call takes no index outside the topology, and does nothing when its own numbers
are outside. -/
def Guarded (call : SimulatorCall) : Prop :=
  (∀ act ∈ s.run call, s.InBounds act) ∧ (¬ s.Names call → s.run call = [])

/-- `LinkOperation` with this number stays within the topology: the link exists, or
the number is beyond the number of links and `m_ndc` is null. -/
def LinkAddressed (linkNumber : UInt32) : Prop :=
  (s.ndc.isSome ∧ linkNumber < s.totalLinks) ∨ (s.ndc.isNone ∧ s.totalLinks < linkNumber)

variable {s} {isUp : Bool} {nodeNumber nodeANum nodeBNum linkNumber : UInt32}
  {call : SimulatorCall} {tokens : List CxxString}

theorem exists_node (h : nodeNumber < s.totalNodes) :
    ∃ node, s.nodeContainer[nodeNumber.toNat]? = some node := by
  have hlt : nodeNumber.toNat < s.nodeContainer.length := by
    rw [s.length_nodeContainer]
    exact UInt32.lt_iff_toNat_lt.mp h
  exact ⟨_, List.getElem?_eq_getElem hlt⟩

theorem inBounds_withNode {use : SimulatedNode → List SimulatorAction}
    (h : nodeNumber < s.totalNodes) (huse : ∀ node, ∀ act ∈ use node, s.InBounds act) :
    ∀ act ∈ s.withNode nodeNumber use, s.InBounds act := by
  obtain ⟨node, hnode⟩ := exists_node h
  rw [withNode, hnode]
  exact List.forall_mem_cons.mpr ⟨h, huse node⟩

theorem guarded_p2pOperation : s.Guarded (.p2pOperation nodeANum nodeBNum isUp) := by
  by_cases hout : s.totalNodes ≤ nodeANum ∨ s.totalNodes ≤ nodeBNum
  · have hrun : s.run (.p2pOperation nodeANum nodeBNum isUp) = [] := if_pos hout
    exact ⟨by simp [hrun], fun _ => hrun⟩
  · obtain ⟨hA, hB⟩ := not_or.mp hout
    rw [UInt32.not_le] at hA hB
    refine ⟨?_, fun hnot => absurd ⟨hA, hB⟩ hnot⟩
    rw [run, p2pOperation, if_neg hout]
    refine inBounds_withNode hA fun nodeA => inBounds_withNode hB fun nodeB act hact => ?_
    split at hact
    · simp at hact
    · simp only [List.mem_flatMap] at hact
      obtain ⟨⟨device, channel⟩, -, nodeDevice, -, hact⟩ := hact
      split at hact
      · rcases List.mem_pair.mp hact with rfl | rfl <;> trivial
      · simp at hact

theorem guarded_allInterfacesOperation : s.Guarded (.allInterfacesOperation nodeNumber isUp) := by
  by_cases hout : s.totalNodes ≤ nodeNumber
  · have hrun : s.run (.allInterfacesOperation nodeNumber isUp) = [] := if_pos hout
    exact ⟨by simp [hrun], fun _ => hrun⟩
  · have hin := UInt32.not_le.mp hout
    refine ⟨?_, fun hnot => absurd hin hnot⟩
    rw [run, allInterfacesOperation, if_neg hout]
    refine inBounds_withNode hin fun node act hact => ?_
    split at hact
    · simp at hact
    · obtain ⟨i, -, rfl⟩ := List.mem_map.mp hact
      trivial

theorem inBounds_commandOrVerbosity {command verbose : List CxxString → SimulatorAction}
    (hcommand : ∀ tokens, s.InBounds (command tokens))
    (hverbose : ∀ tokens, s.InBounds (verbose tokens)) :
    ∀ act ∈ commandOrVerbosity tokens command verbose, s.InBounds act := by
  unfold commandOrVerbosity
  split
  · simp
  · split_ifs
    · simp
    · simpa using hverbose _
    · simpa using hcommand _

theorem inBounds_routingTokens (protocol : RoutingProtocol) (h : nodeNumber < s.totalNodes) :
    ∀ act ∈ s.routingTokens nodeNumber protocol tokens, s.InBounds act := by
  refine inBounds_withNode h fun node => ?_
  split_ifs
  · simp
  · exact inBounds_commandOrVerbosity (fun _ => trivial) fun _ => trivial
  · simp

theorem guarded_processNodeCommandTokens :
    s.Guarded (.processNodeCommandTokens nodeNumber tokens) := by
  by_cases hout : s.totalNodes ≤ nodeNumber
  · have hrun : s.run (.processNodeCommandTokens nodeNumber tokens) = [] := if_pos hout
    exact ⟨by simp [hrun], fun _ => hrun⟩
  · have hin := UInt32.not_le.mp hout
    refine ⟨?_, fun hnot => absurd hin hnot⟩
    rw [run, processNodeCommandTokens.eq_def, if_neg hout]
    split
    · simp
    · simp
    · split_ifs
      · exact inBounds_withNode hin fun node =>
          inBounds_commandOrVerbosity (fun _ => trivial) fun _ => trivial
      · exact inBounds_routingTokens _ hin
      · exact inBounds_routingTokens _ hin
      · simp

theorem guarded_linkOperation_iff :
    s.Guarded (.linkOperation linkNumber isUp) ↔ s.LinkAddressed linkNumber := by
  by_cases hguard : s.totalLinks < linkNumber ∧ s.ndc.isNone
  · have hrun : s.run (.linkOperation linkNumber isUp) = [] := if_pos hguard
    exact iff_of_true ⟨by simp [hrun], fun _ => hrun⟩ (Or.inr ⟨hguard.2, hguard.1⟩)
  · have hrun : .getDevices linkNumber ∈ s.run (.linkOperation linkNumber isUp) := by
      rw [run, linkOperation, if_neg hguard]
      exact List.mem_cons_self
    constructor
    · intro h
      exact Or.inl (h.1 _ hrun)
    · rintro (⟨hsome, hlt⟩ | ⟨hnone, hlt⟩)
      · refine ⟨?_, fun hnot => absurd ⟨hsome, hlt⟩ hnot⟩
        obtain ⟨ndc, hndc⟩ := Option.isSome_iff_exists.mp hsome
        have hindex : linkNumber.toNat < ndc.length := by
          rw [s.length_ndc ndc hndc]
          exact UInt32.lt_iff_toNat_lt.mp hlt
        rw [run, linkOperation, if_neg hguard, hndc, Option.bind_some,
          List.getElem?_eq_getElem hindex]
        refine List.forall_mem_cons.mpr ⟨⟨hsome, hlt⟩, fun act hact => ?_⟩
        split at hact
        · contradiction
        · simp at hact
        · rcases List.mem_pair.mp hact with rfl | rfl <;> trivial
      · exact absurd ⟨hlt, hnone⟩ hguard

theorem guarded_of_ne (h : ∀ linkNumber isUp, call ≠ .linkOperation linkNumber isUp) :
    s.Guarded call := by
  cases call with
  | stop => exact ⟨fun act hact => absurd hact List.not_mem_nil, fun _ => rfl⟩
  | linkOperation linkNumber isUp => exact absurd rfl (h linkNumber isUp)
  | p2pOperation nodeANum nodeBNum isUp => exact guarded_p2pOperation
  | allInterfacesOperation nodeNumber isUp => exact guarded_allInterfacesOperation
  | processNodeCommandTokens nodeNumber tokens => exact guarded_processNodeCommandTokens

theorem mem_downOrUp {operation : CxxString} {make : Bool → SimulatorCall} :
    call ∈ downOrUp operation make ↔
      (upperCase operation = downWord ∧ call = make false) ∨
        (upperCase operation = upWord ∧ call = make true) := by
  have hne : downWord ≠ upWord := by decide
  unfold downOrUp
  split_ifs with hdown hup
  · simp [hdown, hne]
  · simp [hup, hne.symm]
  · simp [hdown, hup]

theorem head?_ne_hash {first : CxxString} (h : upperCase first = linkWord) :
    first.head? ≠ some 35 := by
  intro hhash
  have hhead : (upperCase first).head? = some (toUpper 35) := by
    rw [upperCase, List.head?_map, hhash]
    rfl
  rw [h] at hhead
  exact absurd hhead (by decide)

theorem mem_linkOperation_iff :
    .linkOperation linkNumber isUp ∈ s.processCommandTokens tokens ↔
      ∃ first operation number, tokens = [first, operation, number] ∧
        upperCase first = linkWord ∧ linkNumber = extract32 number ∧
        upperCase operation = if isUp then upWord else downWord := by
  constructor
  · intro hmem
    unfold processCommandTokens at hmem
    split at hmem
    · simp at hmem
    · rename_i first arguments
      split_ifs at hmem with hhash hquit htime hnil hlink hnodeLinks hall hreal hnode
      · simp at hmem
      · simp at hmem
      · simp at hmem
      · simp at hmem
      · split at hmem
        · rename_i operation number
          refine ⟨first, operation, number, rfl, hlink, ?_⟩
          rcases mem_downOrUp.mp hmem with ⟨hop, hcall⟩ | ⟨hop, hcall⟩
          · obtain ⟨rfl, rfl⟩ := SimulatorCall.linkOperation.inj hcall
            exact ⟨rfl, hop⟩
          · obtain ⟨rfl, rfl⟩ := SimulatorCall.linkOperation.inj hcall
            exact ⟨rfl, hop⟩
        · rcases mem_downOrUp.mp hmem with ⟨-, hcall⟩ | ⟨-, hcall⟩ <;> cases hcall
        · simp at hmem
      · split at hmem
        · rcases mem_downOrUp.mp hmem with ⟨-, hcall⟩ | ⟨-, hcall⟩ <;> cases hcall
        · simp at hmem
      · obtain ⟨i, -, hcall⟩ := List.mem_map.mp hmem
        cases hcall
      · simp at hmem
      · simp at hmem
      · simp at hmem
  · rintro ⟨first, operation, number, rfl, hlink, rfl, hop⟩
    have hquit : upperCase first ≠ quitWord := by
      rw [hlink]
      decide
    have htime : upperCase first ≠ timeWord := by
      rw [hlink]
      decide
    rw [processCommandTokens, if_neg (head?_ne_hash hlink), if_neg hquit, if_neg htime,
      if_neg (List.cons_ne_nil _ _), if_pos hlink]
    refine mem_downOrUp.mpr ?_
    cases isUp with
    | false => exact Or.inl ⟨hop, rfl⟩
    | true => exact Or.inr ⟨hop, rfl⟩

/-- The operations of a command line stay within the topology exactly when the line is
no LINK line with one number, or its number is that of a link in `m_ndc`, or `m_ndc`
is null and the number exceeds the number of links. -/
theorem commands_guarded_iff (s : SimulatorMain) (tokens : List CxxString) :
    (∀ call ∈ s.processCommandTokens tokens, s.Guarded call) ↔
      ∀ first operation number, tokens = [first, operation, number] →
        upperCase first = linkWord →
        (upperCase operation = downWord ∨ upperCase operation = upWord) →
        s.LinkAddressed (extract32 number) := by
  constructor
  · rintro hall first operation number htokens hlink (hdown | hup)
    · have hmem : .linkOperation (extract32 number) false ∈ s.processCommandTokens tokens :=
        mem_linkOperation_iff.mpr ⟨first, operation, number, htokens, hlink, rfl, hdown⟩
      exact guarded_linkOperation_iff.mp (hall _ hmem)
    · have hmem : .linkOperation (extract32 number) true ∈ s.processCommandTokens tokens :=
        mem_linkOperation_iff.mpr ⟨first, operation, number, htokens, hlink, rfl, hup⟩
      exact guarded_linkOperation_iff.mp (hall _ hmem)
  · intro haddressed call hcall
    by_cases hop : ∃ linkNumber isUp, call = .linkOperation linkNumber isUp
    · obtain ⟨linkNumber, isUp, rfl⟩ := hop
      obtain ⟨first, operation, number, htokens, hlink, rfl, hword⟩ :=
        mem_linkOperation_iff.mp hcall
      refine guarded_linkOperation_iff.mpr
        (haddressed first operation number htokens hlink ?_)
      cases isUp with
      | false => exact Or.inl hword
      | true => exact Or.inr hword
    · exact guarded_of_ne fun linkNumber isUp heq => hop ⟨linkNumber, isUp, heq⟩

def sampleTopology : SimulatorMain where
  nodeContainer :=
    [⟨0, true, [(⟨0, 1⟩, some [⟨0, 1⟩, ⟨1, 1⟩])], some [.ls]⟩,
      ⟨1, true, [(⟨1, 1⟩, some [⟨0, 1⟩, ⟨1, 1⟩])], some [.ls]⟩]
  ndc := some [(⟨0, 1⟩, some ⟨1, 1⟩)]
  totalNodes := 2
  totalLinks := 1
  realStack := false
  length_nodeContainer := rfl
  length_ndc := by
    rintro devices h
    obtain rfl := Option.some.inj h
    rfl

example : (sampleTopology.processCommandTokens [linkWord, downWord, [48]]).flatMap
    sampleTopology.run = [.getDevices 0, .setInterface 0 1 false, .setInterface 1 1 false] := by
  decide

/-- `LINK DOWN 1` takes the second element of an array of one. -/
theorem link_down_out_of_bounds :
    sampleTopology.run (.linkOperation 1 false) = [.getDevices 1, .fault] ∧
      ¬ ∀ call ∈ sampleTopology.processCommandTokens [linkWord, downWord, [49]],
        sampleTopology.Guarded call := by
  have hrun : sampleTopology.run (.linkOperation 1 false) = [.getDevices 1, .fault] := by decide
  refine ⟨hrun, fun hall => ?_⟩
  have hguarded := hall (.linkOperation 1 false) (by decide)
  exact hguarded.1 .fault (by rw [hrun]; simp)

end SimulatorMain

end PennSearch
