namespace Crosswalk.Rules

def navigationVocabulary : List String :=
  ["navcontroller", "navigate(", "navhost", "popbackstack", "startactivity", "fragmentmanager",
    "navigationstack", "navigationlink", "navigationview", "navigationdestination",
    "pushviewcontroller", "present("]

def stateVocabulary : List String :=
  ["stateflow", "mutablestateflow", "livedata", "mutablestateof", "viewmodelscope",
    "collectasstate", "observableobject", "@published", "@state", "@observable", "@stateobject",
    "@environmentobject", "combine"]

def serviceVocabulary : List String :=
  ["bindservice", "startservice", "startforegroundservice", "serviceconnection", "workmanager",
    "jobscheduler", "retrofit", "okhttp", "urlsession", "bgtaskscheduler"]

def deepLinkVocabulary : List String :=
  ["deeplink", "deep_link", "navdeeplink", "onnewintent", "action_view", "uri.parse", "onopenurl",
    "handlesexternalevents", "continue useractivity", "open url:"]

def pathKeywords : List String :=
  ["viewmodel", "repository", "manager", "service", "navigation", "navgraph", "router",
    "coordinator", "activity", "application", "appdelegate", "store", "module", "database"]

def contentKeywords : List String :=
  ["stateflow", "livedata", "mutablestate", "viewmodel", "repository", "@inject", "@hiltviewmodel",
    "@module", "@singleton", "companion object", "navcontroller", "navhost", "startactivity",
    "sharedpreferences", "datastore", "@dao", "@database", "bindservice", "observableobject",
    "@published", "@environmentobject", "@main", "userdefaults", "navigationstack", "coredata",
    "suspend fun", "coroutinescope", "viewmodelscope"]

end Crosswalk.Rules
