import Provision.Json.Value

/-! Ansible playbooks.

A playbook is a list of plays, one for each machine; a play runs its tasks in order,
each of them a script with an environment. -/
namespace Provision.Ansible

structure Task where
  name : String
  /-- The path of the script. -/
  script : String
  environment : OrderedMap String String := .empty
  deriving Inhabited

structure Play where
  name : String
  hosts : String
  /-- Whether the tasks run with the rights of the administrator. -/
  escalates : Bool := true
  tasks : List Task := []
  deriving Inhabited

/-- An empty environment is left out. -/
def Task.toJson (t : Task) : Json :=
  .object <|
    [("name", .string t.name), ("ansible.builtin.script", .string t.script)] ++
      if t.environment.isEmpty then [] else [("environment", .texts t.environment)]

def Play.toJson (p : Play) : Json :=
  .object
    [("name", .string p.name), ("hosts", .string p.hosts), ("become", .bool p.escalates),
      ("tasks", .array (p.tasks.map Task.toJson))]

end Provision.Ansible
