namespace Crosswalk.Rules

def swiftShadow : String := String.join [
  "// Shadow definitions: framework stubs for syntax-level validation.\n",
  "protocol View \x7b\x7d\n",
  "protocol ObservableObject: AnyObject \x7b\x7d\n",
  "protocol Identifiable \x7b\x7d\n",
  "struct Text: View \x7b init(_ s: String) \x7b\x7d \x7d\n",
  "struct VStack<Content>: View \x7b init(@ViewBuilder content: () -> Content) \x7b\x7d \x7d\n",
  "struct HStack<Content>: View \x7b init(@ViewBuilder content: () -> Content) \x7b\x7d \x7d\n",
  "struct NavigationStack<Content>: View \x7b init(@ViewBuilder content: () -> Content) ",
  "\x7b\x7d \x7d\n",
  "struct Button<Label>: View \x7b init(_ title: String, action: @escaping () -> Void) ",
  "\x7b\x7d \x7d\n",
  "@resultBuilder struct ViewBuilder \x7b static func buildBlock<C>(_ c: C...) -> C? \x7b ",
  "c.first \x7d \x7d\n",
  "@propertyWrapper struct State<Value> \x7b var wrappedValue: Value \x7d\n",
  "@propertyWrapper struct Published<Value> \x7b var wrappedValue: Value \x7d\n",
  "@propertyWrapper struct StateObject<Value> \x7b var wrappedValue: Value \x7d\n",
  "@propertyWrapper struct ObservedObject<Value> \x7b var wrappedValue: Value \x7d\n",
  "@propertyWrapper struct EnvironmentObject<Value> \x7b var wrappedValue: Value \x7d\n",
  "@propertyWrapper struct AppStorage<Value> \x7b var wrappedValue: Value; ",
  "init(wrappedValue: Value, _ key: String) \x7b self.wrappedValue = wrappedValue \x7d ",
  "\x7d\n",
  "class UserDefaults \x7b static let standard = UserDefaults() \x7d\n",
  "class URLSession \x7b static let shared = URLSession() \x7d\n"]

def kotlinShadow : String := String.join [
  "// Shadow definitions: framework stubs for syntax-level validation.\n",
  "annotation class Composable\n",
  "annotation class Inject\n",
  "annotation class HiltViewModel\n",
  "open class ViewModel\n",
  "open class Activity\n",
  "open class Fragment\n",
  "open class Context\n",
  "class Intent\n",
  "class Bundle\n",
  "interface StateFlow<T> \x7b val value: T \x7d\n",
  "class MutableStateFlow<T>(override var value: T) : StateFlow<T>\n",
  "open class LiveData<T>\n",
  "class MutableLiveData<T> : LiveData<T>()\n",
  "class SharedPreferences\n",
  "object Modifier\n",
  "fun <T> mutableStateOf(value: T): MutableStateFlow<T> = MutableStateFlow(value)\n"]

end Crosswalk.Rules
