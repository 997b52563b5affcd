namespace ServerConf

abbrev Environment := String → Option String

namespace Environment

def empty : Environment := fun _ => none

def ofList (bindings : List (String × String)) : Environment :=
  fun name => bindings.lookup name

@[simp] theorem empty_apply (name : String) : empty name = none := rfl

end Environment

end ServerConf
