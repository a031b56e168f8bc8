import Provision.Azure.Template

/-! The resources of a virtual machine.

A machine owns its network interface, which owns a security group and a public address;
all machines share one network. An extension runs scripts on a machine. -/
namespace Provision.Azure

def networkApi : String := "2023-04-01"
def computeApi : String := "2023-03-01"

def fromVariable (name : String) : Content := .expression (.variableValue name)

def fromParameter (name : String) : Content := .expression (.parameterValue name)

/-- A reference to another resource. -/
def reference (r : Resource) : Content := .object [("id", .term r.id)]

/-! ### The network -/

def virtualNetwork (name : String) : Resource :=
  { (Resource.start "Microsoft.Network/virtualNetworks" networkApi
      (.expression (.variableValue "vnetName"))).requiring
        [("vnetName", .variableOf (.text name)), ("subnetName", .variableOf (.text "default")),
          ("addressPrefix", .variableOf (.text "10.0.0.0/16")),
          ("subnetPrefix", .variableOf (.text "10.0.0.0/24"))] with
    properties := .object
      [("addressSpace", .object [("addressPrefixes", .array [fromVariable "addressPrefix"])]),
        ("subnets", .array
          [.object
            [("name", fromVariable "subnetName"),
              ("properties", .object [("addressPrefix", fromVariable "subnetPrefix")])]])] }

def sshPort : UInt16 := 22

/-- The ports that a security group opens: the one for access and then the others. -/
def openPorts (ports : List UInt16) : List UInt16 := sshPort :: ports.filter (· ≠ sshPort)

/-- The rule for the port at a place of the list. -/
def securityRule (port : UInt16) (place : Nat) : Content :=
  .object
    [("name", .text ("allow-" ++ toString port.toNat)),
      ("properties", .object
        [("priority", .given (.natural (1000 + 10 * place))), ("protocol", .text "Tcp"),
          ("access", .text "Allow"), ("direction", .text "Inbound"),
          ("sourceAddressPrefix", .text "*"), ("sourcePortRange", .text "*"),
          ("destinationAddressPrefix", .text "*"),
          ("destinationPortRange", .text (toString port.toNat))])]

def securityGroup (name : String) (ports : List UInt16) : Resource :=
  { Resource.start "Microsoft.Network/networkSecurityGroups" networkApi (.text name) with
    properties := .object
      [("securityRules", .array ((openPorts ports).zipIdx.map fun (p, i) => securityRule p i))] }

/-- The label under which a public address is known. -/
def domainLabel (name : String) : Expression :=
  .call "toLower"
    [.call "concat" [.literal (name ++ "-"),
      .call "uniqueString" [.code "resourceGroup().id"]]]

def publicAddress (name : String) : Resource :=
  { Resource.start "Microsoft.Network/publicIPAddresses" networkApi (.text name) with
    properties := .object
      [("publicIPAllocationMethod", .text "Dynamic"),
        ("dnsSettings", .object [("domainNameLabel", .expression (domainLabel name))])] }

/-- The subnet of the shared network. -/
def subnet : Expression :=
  .call "resourceId"
    [.literal "Microsoft.Network/virtualNetworks/subnets", .variableValue "vnetName",
      .variableValue "subnetName"]

def networkInterface (name : String) (network group address : Resource) : ResourceTree :=
  let interface :=
    { (Resource.start "Microsoft.Network/networkInterfaces" networkApi (.text name)).requiring
        [("subnetRef", .variableOf (.expression subnet))] with
      properties := .object
        [("ipConfigurations", .array
          [.object
            [("name", .text "ipconfig1"),
              ("properties", .object
                [("privateIPAllocationMethod", .text "Dynamic"),
                  ("subnet", .object [("id", fromVariable "subnetRef")]),
                  ("publicIPAddress", reference address)])]]),
          ("networkSecurityGroup", reference group)]
      dependsOn := [network.id, group.id, address.id] }
  .node interface [.node group [], .node address []]

/-! ### The machine -/

/-- What all machines of a template have in common. -/
structure Profile where
  size : String
  adminUsername : String
  imagePublisher : String
  imageOffer : String
  imageSku : String

def adminKeyPath : Expression :=
  .call "concat" [.literal "/home/", .parameterValue "adminUsername", .literal "/.ssh/authorized_keys"]

/-- A machine that is entered with a key, which becomes the default of its parameter. -/
def virtualMachine (name : String) (interface : ResourceTree) (profile : Profile)
    (publicKey : Option String) : ResourceTree :=
  let machine :=
    { (Resource.start "Microsoft.Compute/virtualMachines" computeApi (.text name)).requiring
        [("vmSize", .parameter (parameterDefinition "string" (some (.text profile.size)))),
          ("adminUsername",
            .parameter (parameterDefinition "string" (some (.text profile.adminUsername)))),
          ("adminPublicKey",
            .parameter (parameterDefinition "securestring" (publicKey.map Content.text))),
          ("imagePublisher", .variableOf (.text profile.imagePublisher)),
          ("imageOffer", .variableOf (.text profile.imageOffer)),
          ("imageSku", .variableOf (.text profile.imageSku))] with
      properties := .object
        [("hardwareProfile", .object [("vmSize", fromParameter "vmSize")]),
          ("osProfile", .object
            [("computerName", .text name), ("adminUsername", fromParameter "adminUsername"),
              ("linuxConfiguration", .object
                [("disablePasswordAuthentication", .given (.bool true)),
                  ("ssh", .object
                    [("publicKeys", .array
                      [.object
                        [("path", .expression adminKeyPath),
                          ("keyData", fromParameter "adminPublicKey")]])])])]),
          ("storageProfile", .object
            [("imageReference", .object
              [("publisher", fromVariable "imagePublisher"), ("offer", fromVariable "imageOffer"),
                ("sku", fromVariable "imageSku"), ("version", .text "latest")]),
              ("osDisk", .object [("createOption", .text "FromImage")])]),
          ("networkProfile", .object
            [("networkInterfaces", .array [reference interface.value])])]
      dependsOn := [interface.value.id] }
  .node machine [interface]

/-! ### The extension -/

/-- Where a script is loaded from. -/
def scriptLocation (file : String) : Expression :=
  .call "concat" [.parameterValue "artifactsLocation", .literal ("/" ++ file)]

/-- Loads scripts onto a machine and runs a command there. -/
def scriptExtension (machine : Resource) (files : List String) (command : String) : Resource :=
  { (Resource.start "Microsoft.Compute/virtualMachines/extensions" computeApi
      (.text (machine.name.render ++ "/deploy"))).requiring
        [("artifactsLocation", .parameter (parameterDefinition "string"))] with
    properties := .object
      [("publisher", .text "Microsoft.Azure.Extensions"), ("type", .text "CustomScript"),
        ("typeHandlerVersion", .text "2.1"), ("autoUpgradeMinorVersion", .given (.bool true)),
        ("settings", .object
          [("fileUris", .array (files.map fun f => .expression (scriptLocation f)))]),
        ("protectedSettings", .object [("commandToExecute", .text command)])]
    dependsOn := [machine.id] }

end Provision.Azure
