import Provision.Data.OrderedMap
import Provision.Text.GraphemeExtend
import Provision.Text.Identifier
import Provision.Text.Printable
import Provision.Text.Quoted
import Provision.Number.Double
import Provision.Number.Layout
import Provision.Number.Numeral
import Provision.Fault
import Provision.Files.SystemFault
import Provision.Entity.Builder
import Provision.Entity.Inheritance
import Provision.Data.Sorting
import Provision.Model.Operation
import Provision.Model.Property
import Provision.Model.Kind
import Provision.Model.Resolution
import Provision.Model.Build
import Provision.Topology.Hosting
import Provision.Topology.Indexed
import Provision.Output.Indexed
import Provision.Output.Derived
import Provision.Topology.Visit
import Provision.Json.Value
import Provision.Json.Writer
import Provision.Yaml.Cursor
import Provision.Yaml.Token
import Provision.Yaml.Token.Scalar
import Provision.Yaml.Token.Lexer
import Provision.Yaml.Tree
import Provision.Yaml.Node
import Provision.Yaml.Plain
import Provision.Yaml.Value
import Provision.Entity.BuiltIn
import Provision.Entity.Document
import Provision.Backend.Context
import Provision.Workspace
import Provision.Yaml.Writer
import Provision.Ansible.Backend
import Provision.Heat.Backend
import Provision.Kubernetes.Stack
import Provision.Kubernetes.Backend
import Provision.Azure.Expression
import Provision.Azure.Template
import Provision.Azure.Backend
import Provision.Deployment.Execution
import Provision.Files.Disk
import Provision.Workspace.Directories
import Provision.Config.Basic
import Provision.Config.Loading
import Provision.CommandLine.Arguments
import Provision.CommandLine.Run
import Provision.CommandLine.Recording
import Provision.Main
import Provision.Files.Listing
import Provision.Proofs.Lifecycle
import Provision.Proofs.Topology.Order
import Provision.Proofs.Placement
import Provision.Proofs.Azure.References
import Provision.Proofs.Heat.Layout
import Provision.Proofs.Heat.Closure
import Provision.Proofs.Copies
import Provision.Proofs.Forms
import Provision.Proofs.Azure.Requirements
import Provision.Proofs.Model.Precedence
import Provision.Proofs.Topology.Visit
import Provision.Proofs.Topology.Chain
import Provision.Proofs.Azure.Ports
import Provision.Proofs.Hosts
import Provision.Proofs.Kubernetes.Environments
import Provision.Proofs.Entity.Depiction
import Provision.Proofs.Yaml.Keys
import Provision.Proofs.Entity.Exact
import Provision.Proofs.Entity.Types
import Provision.Proofs.Model.Kinds
import Provision.Proofs.Azure.Names
import Provision.Proofs.Names
import Provision.Proofs.Data.State
import Provision.Proofs.Circles
import Provision.Proofs.Targets
import Provision.Proofs.Entity.Chain
import Provision.Proofs.Workspace.Containment
import Provision.Proofs.Azure.Keys
import Provision.Proofs.Kubernetes.Commands
import Provision.Proofs.Heat.Inputs
import Provision.Proofs.Inputs
import Provision.Proofs.Data.Scanner
import Provision.Proofs.Shell.Plain
import Provision.Proofs.Azure.Commands
import Provision.Proofs.Azure.Scripts
import Provision.Proofs.Variables
import Provision.Proofs.Workspace.Accesses
import Provision.Proofs.Backend.Repeats
import Provision.Proofs.Entity.Kept
import Provision.Proofs.Model.References
import Provision.Proofs.Model.Integers
import Provision.Proofs.Topology.SameHosting
import Provision.Proofs.Model.Operations
import Provision.Proofs.Kubernetes.Labels
import Provision.Proofs.Output.Merging
import Provision.Proofs.Model.Reading
import Provision.Proofs.Topology.Additions
import Provision.Proofs.Entity.Additions
import Provision.Proofs.Output.Additions
import Provision.Proofs.Workspace.Report
