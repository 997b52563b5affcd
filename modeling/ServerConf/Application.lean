import ServerConf.Text.Decimal

namespace ServerConf.Application

def name : String := "ncl-gen"

def version : String := "1.0.0"

def description : String :=
  "Convert nginx configuration language (NCL) files to nginx.conf"

def sourceExtension : String := ".ncl"

def outputExtension : String := ".conf"

def indent : String := "  "

def nginxCommand : String := "nginx"

def dockerImage : String := "nginx:alpine"

/-- Ten seconds, to one decimal place. -/
def validationTimeout : Text.Decimal := { mantissa := 100, exponent := -1 }

end ServerConf.Application
